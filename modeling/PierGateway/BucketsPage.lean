import PierGateway.StatsMerge

/-!
# The page of buckets

The page fetches the list when it is opened and, by an effect that runs again whenever the list
of the store has changed, asks for the numbers of the readable buckets that have none. Every
merge of numbers changes the list, so the effect runs many times for one list; and lists and
numbers come in any order, while the page is open and while it is not. A bucket is asked for at
most once for every list that shows it readable, and a page at rest has tried all of them: what
is still without numbers is what was refused.
-/
namespace PierGateway.Spa.Buckets
open GoStrings EventRuns

variable {ν : Type}

/-- The names that the effect of the page asks for. -/
def unlisted (buckets : List (BucketInfo ν)) : List Str :=
  (buckets.filter fun b => b.permissions.read && b.sizeBytes.isNone).map (·.name)

/-- The names of the readable buckets of a list. -/
def offered (buckets : List (BucketInfo ν)) : List Str :=
  (buckets.filter fun b => b.permissions.read).map (·.name)

/-- The store with the page over it: whether it is open, and whether its effect still has to run
for the list as it is. -/
structure Page (ν : Type) where
  store : Store ν := {}
  mounted : Bool := false
  stale : Bool := false

/-- The list can be fetched by the page, by the shell around it and by other pages. -/
inductive PageEvent (ν : Type) where
  | mount
  | unmount
  | effect
  | fetchBuckets
  | deliverBuckets (reply : Except Failure (List (BucketInfo ν)))
  | deliverStats (i : ℕ) (reply : StatsReply ν)

namespace Store

/-- The effect of the page. -/
def askStats (s : Store ν) : Store ν :=
  if 0 < (unlisted s.state.buckets).length then s.fetchBucketStats (unlisted s.state.buckets) else s

end Store

namespace Page

/-- The list of a reply has arrived. -/
def settleBuckets (p : Page ν) (reply : Except Failure (List (BucketInfo ν))) : Page ν :=
  match reply with
  | .ok _ =>
      { p with
        store := p.store.settleBuckets reply
        stale := p.mounted }
  | .error _ => { p with store := p.store.settleBuckets reply }

/-- Numbers have arrived; those of a failed request change nothing. -/
def settleStats (p : Page ν) (i : ℕ) (reply : StatsReply ν) (request : StatsCall) : Page ν :=
  { p with
    store := p.store.settleStats i reply request
    stale := p.stale || (p.mounted && reply.isSome) }

def step (p : Page ν) : PageEvent ν → Option (Page ν)
  | .mount =>
      if p.mounted then none
      else some { p with mounted := true, stale := true, store := p.store.fetchBuckets }
  | .unmount => if p.mounted then some { p with mounted := false, stale := false } else none
  | .effect => if p.stale then some { p with stale := false, store := p.store.askStats } else none
  | .fetchBuckets => some { p with store := p.store.fetchBuckets }
  | .deliverBuckets reply => if p.store.listing = 0 then none else some (p.settleBuckets reply)
  | .deliverStats i reply => p.store.statsInFlight[i]?.map (p.settleStats i reply)

/-- A list names each bucket once. -/
def Distinct (_ : Page ν) : PageEvent ν → Prop
  | .deliverBuckets (.ok buckets) => (buckets.map (·.name)).Nodup
  | _ => True

/-- The list that an event brings. -/
def list (_ : Page ν) : PageEvent ν → Option (List (BucketInfo ν))
  | .deliverBuckets (.ok buckets) => some buckets
  | _ => none

/-- Whose request for numbers an event answers, and how. -/
def answer (p : Page ν) : PageEvent ν → Option (Str × StatsReply ν)
  | .deliverStats i reply => p.store.answer (.deliverStats i reply)
  | _ => none

/-- How many lists came in a history that show a bucket readable. -/
def offers (h : List (Page ν × PageEvent ν)) (n : Str) : ℕ :=
  (seen list h).countP fun buckets => n ∈ offered buckets

/-- The names whose request was refused in a history. -/
def Refused (h : List (Page ν × PageEvent ν)) (n : Str) : Prop := (n, none) ∈ seen answer h

end Page

/-! ### Numbers and lists -/

theorem merge_sizeBytes {b : BucketInfo ν} (name : Str) (reply : StatsReply ν)
    (h : b.sizeBytes.isSome) :
    (b.merge name reply).sizeBytes.isSome := by
  by_cases hname : b.name = name
  · cases reply with
    | none => exact h
    | some stats => simp [BucketInfo.merge, hname]
  · rw [merge_of_ne hname]
    exact h

theorem merge_self (b : BucketInfo ν) (stats : BucketStats ν) :
    (b.merge b.name (some stats)).sizeBytes.isSome := by
  simp [BucketInfo.merge]

theorem map_merge_name (buckets : List (BucketInfo ν)) (name : Str) (reply : StatsReply ν) :
    (buckets.map fun b => b.merge name reply).map (·.name) = buckets.map (·.name) := by
  rw [List.map_map]
  exact List.map_congr_left fun b _ => (merge_keeps b name reply).1

theorem offered_merge (buckets : List (BucketInfo ν)) (name : Str) (reply : StatsReply ν) :
    offered (buckets.map fun b => b.merge name reply) = offered buckets := by
  have hread : ((fun b : BucketInfo ν => b.permissions.read) ∘
      fun b : BucketInfo ν => b.merge name reply) = fun b => b.permissions.read := by
    funext b
    exact congrArg Permissions.read (merge_keeps b name reply).2
  unfold offered
  rw [List.filter_map, List.map_map, hread]
  exact List.map_congr_left fun b _ => (merge_keeps b name reply).1

theorem mem_unlisted {buckets : List (BucketInfo ν)} {n : Str} :
    n ∈ unlisted buckets ↔
      ∃ b ∈ buckets, b.name = n ∧ b.permissions.read = true ∧ b.sizeBytes = none := by
  simp only [unlisted, List.mem_map, List.mem_filter, Bool.and_eq_true, Option.isNone_iff_eq_none]
  exact ⟨fun ⟨b, ⟨hb, hkept⟩, hn⟩ => ⟨b, hb, hn, hkept⟩,
    fun ⟨b, hb, hn, hkept⟩ => ⟨b, ⟨hb, hkept⟩, hn⟩⟩

theorem unlisted_subset {buckets : List (BucketInfo ν)} {n : Str} (h : n ∈ unlisted buckets) :
    n ∈ offered buckets := by
  obtain ⟨b, hb, hn, hread, -⟩ := mem_unlisted.mp h
  exact List.mem_map.mpr ⟨b, List.mem_filter.mpr ⟨hb, hread⟩, hn⟩

theorem nodup_unlisted {buckets : List (BucketInfo ν)} (h : (buckets.map (·.name)).Nodup) :
    (unlisted buckets).Nodup :=
  h.sublist (List.filter_sublist.map _)

/-! ### What is asked for -/

namespace Store

/-- How often a name has been requested, or will be when the workers come to it. -/
def asked (s : Store ν) (n : Str) : ℕ := s.requests.count n + s.queues.flatten.count n

theorem count_flatten_set {queues : List (List Str)} {call : ℕ} {name : Str} {rest : List Str}
    (h : queues[call]? = some (name :: rest)) (n : Str) :
    (queues.set call rest).flatten.count n + [name].count n = queues.flatten.count n := by
  induction queues generalizing call with
  | nil => simp at h
  | cons queue queues ih =>
      cases call with
      | zero =>
          obtain rfl : queue = name :: rest := by simpa using h
          simp only [List.set_cons_zero, List.flatten_cons, List.count_append, List.count_cons]
          simp only [List.count_nil]
          omega
      | succ call =>
          have hrest : (queues.set call rest).flatten.count n + [name].count n =
              queues.flatten.count n :=
            ih (by simpa using h)
          simp only [List.set_cons_succ, List.flatten_cons, List.count_append]
          omega

/-- A worker takes the next name, or there is none. -/
theorem shift_cases (s : Store ν) (call : ℕ) :
    (∃ name rest, s.queues[call]? = some (name :: rest) ∧ s.shift call = { s with
      queues := s.queues.set call rest
      statsInFlight := s.statsInFlight ++ [⟨call, name⟩]
      requests := s.requests ++ [name] }) ∨
    s.shift call = s ∧ ∀ queue, s.queues[call]? = some queue → queue = [] := by
  rcases hqueue : s.queues[call]? with _ | queue
  · right
    constructor
    · rw [shift, hqueue]
    · intro queue h
      cases h
  · cases queue with
    | nil => exact .inr ⟨shift_nil hqueue, fun _ h => (Option.some.inj h).symm⟩
    | cons name rest => exact .inl ⟨name, rest, rfl, shift_cons hqueue⟩

theorem shift_keeps (s : Store ν) (call : ℕ) :
    (s.shift call).state = s.state ∧ (s.shift call).statsRequested = s.statsRequested := by
  obtain ⟨name, rest, -, heq⟩ | ⟨heq, -⟩ := s.shift_cases call
  · rw [heq]
    exact ⟨rfl, rfl⟩
  · rw [heq]
    exact ⟨rfl, rfl⟩

theorem asked_shift (s : Store ν) (call : ℕ) (n : Str) : (s.shift call).asked n = s.asked n := by
  obtain ⟨name, rest, hqueue, heq⟩ | ⟨heq, -⟩ := s.shift_cases call
  · have hcount := count_flatten_set hqueue n
    rw [heq]
    simp only [asked, List.count_append]
    omega
  · rw [heq]

theorem asked_fetchBucketStats (s : Store ν) (names : List Str) (n : Str) :
    (s.fetchBucketStats names).asked n = s.asked n + (s.fresh names).count n := by
  have hsplit : ((s.fresh names).take statsConcurrency).count n
      + ((s.fresh names).drop statsConcurrency).count n = (s.fresh names).count n := by
    rw [← List.count_append, List.take_append_drop]
  rw [fetchBucketStats_eq]
  simp only [asked, List.count_append, List.flatten_append, List.flatten_cons, List.flatten_nil,
    List.append_nil]
  omega

theorem asked_settleStats (s : Store ν) (i : ℕ) (reply : StatsReply ν) (request : StatsCall)
    (n : Str) :
    (s.settleStats i reply request).asked n = s.asked n := by
  unfold settleStats
  rw [asked_shift]
  rfl

/-- A new name uses up what the list allows it. -/
theorem fresh_allowed (s : Store ν) (hdistinct : (s.state.buckets.map (·.name)).Nodup)
    (n : Str) :
    s.asked n + (s.fresh (unlisted s.state.buckets)).count n +
        (if n ∈ offered s.state.buckets ∧
          n ∉ s.statsRequested ++ s.fresh (unlisted s.state.buckets) then 1 else 0) ≤
      s.asked n + if n ∈ offered s.state.buckets ∧ n ∉ s.statsRequested then 1 else 0 := by
  by_cases hnew : n ∈ s.fresh (unlisted s.state.buckets)
  · obtain ⟨hunlisted, hold⟩ := mem_fresh.mp hnew
    have hfresh : (s.fresh (unlisted s.state.buckets)).Nodup :=
      (nodup_unlisted hdistinct).filter _
    have hone := List.nodup_iff_count_le_one.mp hfresh n
    rw [if_neg fun hstill => hstill.2 (List.mem_append_right _ hnew),
      if_pos ⟨unlisted_subset hunlisted, hold⟩]
    omega
  · have hzero := List.count_eq_zero.mpr hnew
    have hless : (if n ∈ offered s.state.buckets ∧
          n ∉ s.statsRequested ++ s.fresh (unlisted s.state.buckets) then 1 else 0) ≤
        if n ∈ offered s.state.buckets ∧ n ∉ s.statsRequested then 1 else 0 := by
      simp [hnew]
    omega

theorem askStats_eq (s : Store ν) : s.askStats = s ∧ unlisted s.state.buckets = [] ∨
    s.askStats = s.fetchBucketStats (unlisted s.state.buckets) := by
  unfold askStats
  split_ifs with hsome
  · exact .inr rfl
  · exact .inl ⟨rfl, List.length_eq_zero_iff.mp (by omega)⟩

/-- A call is heard of as long as its queue holds names. -/
def Busy (s : Store ν) : Prop :=
  ∀ call queue, s.queues[call]? = some queue → queue ≠ [] → ∃ r ∈ s.statsInFlight, r.call = call

/-- A name asked for is queued, in flight, among the refused or listed with numbers. -/
def Accounted (s : Store ν) (refused : Str → Prop) (n : Str) : Prop :=
  n ∈ s.queues.flatten ∨ (∃ r ∈ s.statsInFlight, r.name = n) ∨ refused n ∨
    ∀ b ∈ s.state.buckets, b.name = n → b.sizeBytes.isSome

theorem Busy.fetchBucketStats {s : Store ν} (h : s.Busy) (names : List Str) :
    (s.fetchBucketStats names).Busy := by
  rw [fetchBucketStats_eq]
  intro call queue hqueue hsome
  rcases lt_or_ge call s.queues.length with hlt | hge
  · have hold : s.queues[call]? = some queue := by
      rw [← hqueue, List.getElem?_append_left hlt]
    obtain ⟨r, hr, hcall⟩ := h call queue hold hsome
    exact ⟨r, List.mem_append_left _ hr, hcall⟩
  · rw [List.getElem?_append_right hge] at hqueue
    obtain ⟨hzero, rfl⟩ := List.getElem?_eq_some_iff.mp hqueue
    have hlast : call = s.queues.length := by
      rw [List.length_singleton] at hzero
      omega
    subst hlast
    have hrest : (s.fresh names).drop statsConcurrency ≠ [] := by simpa using hsome
    have htake : (s.fresh names).take statsConcurrency ≠ [] := by
      intro hnone
      rcases List.take_eq_nil_iff.mp hnone with hzero | hnil
      · exact absurd hzero (by decide)
      · exact hrest (by rw [hnil, List.drop_nil])
    obtain ⟨name, hname⟩ := List.exists_mem_of_ne_nil _ htake
    exact ⟨⟨s.queues.length, name⟩, List.mem_append_right _ (List.mem_map_of_mem hname), rfl⟩

/-- The worker whose request was answered goes on while there are names. -/
theorem Busy.settleStats {s : Store ν} (h : s.Busy) {i : ℕ} {request : StatsCall}
    (hrequest : s.statsInFlight[i]? = some request) (reply : StatsReply ν) :
    (s.settleStats i reply request).Busy := by
  have hothers : ∀ call queue, s.queues[call]? = some queue → queue ≠ [] → call ≠ request.call →
      ∃ r ∈ s.statsInFlight.eraseIdx i, r.call = call := by
    intro call queue hqueue hsome hne
    obtain ⟨r, hr, hcall⟩ := h call queue hqueue hsome
    exact ⟨r, mem_eraseIdx_of_ne hr hrequest fun heq => hne (by rw [← hcall, heq]), hcall⟩
  unfold Store.settleStats
  obtain ⟨name, rest, hcons, heq⟩ | ⟨heq, hstop⟩ :=
    (s.mergeStats i reply request).shift_cases request.call
  · rw [heq]
    intro call queue hqueue hsome
    by_cases hcall : call = request.call
    · exact ⟨⟨request.call, name⟩, List.mem_append_right _ (List.mem_singleton.mpr rfl), hcall.symm⟩
    · have hold : s.queues[call]? = some queue := by
        rw [← hqueue]
        exact (List.getElem?_set_ne (Ne.symm hcall)).symm
      obtain ⟨r, hr, hrcall⟩ := hothers call queue hold hsome hcall
      exact ⟨r, List.mem_append_left _ hr, hrcall⟩
  · rw [heq]
    intro call queue hqueue hsome
    refine hothers call queue hqueue hsome fun hcall => hsome (hstop queue ?_)
    rw [← hcall]
    exact hqueue

theorem Busy.flatten_eq_nil {s : Store ν} (h : s.Busy) (hnone : s.statsInFlight = []) :
    s.queues.flatten = [] := by
  rw [List.flatten_eq_nil_iff]
  intro queue hqueue
  by_contra hsome
  obtain ⟨call, hcall⟩ := List.mem_iff_getElem?.mp hqueue
  obtain ⟨r, hr, -⟩ := h call queue hcall hsome
  rw [hnone] at hr
  exact absurd hr List.not_mem_nil

variable {refused refused' : Str → Prop}

theorem Accounted.mono {s : Store ν} {n : Str} (h : s.Accounted refused n)
    (hmono : refused n → refused' n) : s.Accounted refused' n :=
  h.imp_right (Or.imp_right (Or.imp_left hmono))

theorem Accounted.fetchBucketStats {s : Store ν} {n : Str} (h : s.Accounted refused n)
    (names : List Str) : (s.fetchBucketStats names).Accounted refused n := by
  rw [fetchBucketStats_eq]
  rcases h with hqueued | ⟨r, hr, hn⟩ | hrefused | hlisted
  · left
    rw [List.flatten_append]
    exact List.mem_append_left _ hqueued
  · exact .inr (.inl ⟨r, List.mem_append_left _ hr, hn⟩)
  · exact .inr (.inr (.inl hrefused))
  · exact .inr (.inr (.inr hlisted))

theorem accounted_fresh {s : Store ν} {names : List Str} {n : Str} (h : n ∈ s.fresh names) :
    (s.fetchBucketStats names).Accounted refused n := by
  rw [fetchBucketStats_eq]
  rw [← List.take_append_drop statsConcurrency (s.fresh names)] at h
  rcases List.mem_append.mp h with hsent | hkept
  · exact .inr (.inl ⟨⟨s.queues.length, n⟩,
      List.mem_append_right _ (List.mem_map_of_mem (f := StatsCall.mk _) hsent), rfl⟩)
  · left
    simp only [List.flatten_append, List.flatten_singleton]
    exact List.mem_append_right _ hkept

/-- An answered request is a refusal or puts its numbers into the list. -/
theorem Accounted.mergeStats {s : Store ν} {n : Str} (h : s.Accounted refused n) {i : ℕ}
    {request : StatsCall} (hrequest : s.statsInFlight[i]? = some request) (reply : StatsReply ν)
    (hrefusal : reply = none → refused request.name) :
    (s.mergeStats i reply request).Accounted refused n := by
  rcases h with hqueued | ⟨r, hr, hn⟩ | hrefused | hlisted
  · exact .inl hqueued
  · by_cases heq : r = request
    · subst heq
      cases reply with
      | none =>
          right; right; left
          rw [← hn]
          exact hrefusal rfl
      | some stats =>
          right; right; right
          intro b hb hbn
          obtain ⟨c, -, rfl⟩ := List.mem_map.mp hb
          have hname : c.name = r.name := by
            rw [hn, ← hbn]
            exact (merge_keeps c r.name (some stats)).1.symm
          rw [← hname]
          exact merge_self c stats
    · exact .inr (.inl ⟨r, mem_eraseIdx_of_ne hr hrequest heq, hn⟩)
  · exact .inr (.inr (.inl hrefused))
  · right; right; right
    intro b hb hbn
    obtain ⟨c, hc, rfl⟩ := List.mem_map.mp hb
    have hname : c.name = n := (merge_keeps c request.name reply).1.symm.trans hbn
    exact merge_sizeBytes _ _ (hlisted c hc hname)

/-- The worker that goes on takes a name from its queue into flight. -/
theorem Accounted.shift {s : Store ν} {n : Str} (h : s.Accounted refused n) (call : ℕ) :
    (s.shift call).Accounted refused n := by
  obtain ⟨name, rest, hqueue, heq⟩ | ⟨heq, -⟩ := s.shift_cases call
  · rw [heq]
    rcases h with hqueued | ⟨r, hr, hn⟩ | hrefused | hlisted
    · have hcount := count_flatten_set hqueue n
      have hpos : 0 < s.queues.flatten.count n := List.count_pos_iff.mpr hqueued
      by_cases hname : name = n
      · exact .inr (.inl ⟨⟨call, name⟩, List.mem_append_right _ (List.mem_singleton.mpr rfl),
          hname⟩)
      · left
        have hother : [name].count n = 0 := List.count_eq_zero.mpr (by simpa using Ne.symm hname)
        have hleft : 0 < (s.queues.set call rest).flatten.count n := by omega
        exact List.count_pos_iff.mp hleft
    · exact .inr (.inl ⟨r, List.mem_append_left _ hr, hn⟩)
    · exact .inr (.inr (.inl hrefused))
    · exact .inr (.inr (.inr hlisted))
  · rw [heq]
    exact h

end Store

namespace Page

theorem offers_snoc (h : List (Page ν × PageEvent ν)) (p : Page ν) (e : PageEvent ν) (n : Str) :
    offers (h ++ [(p, e)]) n =
      offers h n + (list p e).toList.countP fun buckets => n ∈ offered buckets := by
  unfold offers
  rw [seen_snoc, List.countP_append]

theorem Refused.snoc {h : List (Page ν × PageEvent ν)} {n : Str} (hn : Refused h n) (p : Page ν)
    (e : PageEvent ν) : Refused (h ++ [(p, e)]) n := by
  unfold Refused
  rw [seen_snoc]
  exact List.mem_append_left _ hn

theorem refused_snoc (h : List (Page ν × PageEvent ν)) {p : Page ν} {i : ℕ} {request : StatsCall}
    (hrequest : p.store.statsInFlight[i]? = some request) :
    Refused (h ++ [(p, .deliverStats i none)]) request.name := by
  unfold Refused
  rw [seen_snoc]
  simp [answer, Store.answer, hrequest]

/-- The invariant of the page: a list that offers a bucket allows for one request, which is used up
or still to be made, and what was asked for is accounted for. -/
structure Watched (h : List (Page ν × PageEvent ν)) (p : Page ν) : Prop where
  distinct : (p.store.state.buckets.map (·.name)).Nodup
  allowed : ∀ n, p.store.asked n +
    (if n ∈ offered p.store.state.buckets ∧ n ∉ p.store.statsRequested then 1 else 0) ≤ offers h n
  busy : p.store.Busy
  accounted : ∀ n ∈ p.store.statsRequested, p.store.Accounted (Refused h) n
  tried : p.mounted = true → p.stale = false →
    ∀ n ∈ unlisted p.store.state.buckets, n ∈ p.store.statsRequested

theorem watched_init : Watched [] ({} : Page ν) where
  distinct := List.nodup_nil
  allowed _ := Nat.zero_le _
  busy call queue h := by simp at h
  accounted n h := absurd h List.not_mem_nil
  tried h := nomatch h

variable {h : List (Page ν × PageEvent ν)} {p : Page ν}

/-- What becomes of an event that leaves the list and the requests alone. -/
theorem Watched.of_eq (hw : Watched h p) {q : Page ν} (e : PageEvent ν)
    (hlist : q.store.state.buckets = p.store.state.buckets)
    (hcalls : q.store.statsRequested = p.store.statsRequested ∧ q.store.queues = p.store.queues ∧
      q.store.statsInFlight = p.store.statsInFlight ∧ q.store.requests = p.store.requests)
    (hpage : q.mounted = true → q.stale = false → p.mounted = true ∧ p.stale = false) :
    Watched (h ++ [(p, e)]) q := by
  obtain ⟨hrequested, hqueues, hflight, hrequests⟩ := hcalls
  constructor
  · rw [hlist]
    exact hw.distinct
  · intro n
    have hn := hw.allowed n
    have hoffers := offers_snoc h p e n
    simp only [Store.asked, hlist, hrequested, hqueues, hrequests] at hn ⊢
    omega
  · intro call queue hqueue
    rw [hflight]
    rw [hqueues] at hqueue
    exact hw.busy call queue hqueue
  · intro n hn
    rw [hrequested] at hn
    have hkept := hw.accounted n hn
    have hsame : q.store.Accounted (Refused h) n := by
      simp only [Store.Accounted, hlist, hqueues, hflight] at hkept ⊢
      exact hkept
    exact hsame.mono fun hr => hr.snoc p e
  · intro hmounted hstale
    obtain ⟨hmounted, hstale⟩ := hpage hmounted hstale
    rw [hlist, hrequested]
    exact hw.tried hmounted hstale

theorem Watched.effect (hw : Watched h p) :
    Watched (h ++ [(p, .effect)]) { p with stale := false, store := p.store.askStats } := by
  rcases p.store.askStats_eq with ⟨heq, hnone⟩ | heq
  · rw [heq]
    constructor
    · exact hw.distinct
    · intro n
      rw [offers_snoc]
      exact hw.allowed n
    · exact hw.busy
    · intro n hn
      exact (hw.accounted n hn).mono fun hr => hr.snoc p .effect
    · intro _ _ n hn
      rw [hnone] at hn
      exact absurd hn List.not_mem_nil
  · have hbuckets :
        (p.store.fetchBucketStats (unlisted p.store.state.buckets)).state = p.store.state := by
      rw [Store.fetchBucketStats_eq]
    have hrequested : (p.store.fetchBucketStats (unlisted p.store.state.buckets)).statsRequested =
        p.store.statsRequested ++ p.store.fresh (unlisted p.store.state.buckets) := by
      rw [Store.fetchBucketStats_eq]
    have hmarked : ∀ n ∈ unlisted p.store.state.buckets, n ∈
        p.store.statsRequested ++ p.store.fresh (unlisted p.store.state.buckets) := by
      intro n hn
      rw [List.mem_append]
      by_cases hold : n ∈ p.store.statsRequested
      · exact .inl hold
      · exact .inr (Store.mem_fresh.mpr ⟨hn, hold⟩)
    rw [heq]
    constructor
    · rw [hbuckets]
      exact hw.distinct
    · intro n
      rw [Store.asked_fetchBucketStats, hbuckets, hrequested, offers_snoc]
      exact (p.store.fresh_allowed hw.distinct n).trans (hw.allowed n)
    · exact hw.busy.fetchBucketStats _
    · intro n hn
      rw [hrequested, List.mem_append] at hn
      rcases hn with hold | hnew
      · exact ((hw.accounted n hold).mono fun hr => hr.snoc p .effect).fetchBucketStats _
      · exact Store.accounted_fresh hnew
    · intro _ _ n hn
      rw [hbuckets] at hn
      rw [hrequested]
      exact hmarked n hn

/-- A new list forgets what was asked for, and allows for one more request. -/
theorem Watched.settleBuckets (hw : Watched h p)
    {reply : Except Failure (List (BucketInfo ν))}
    (hdistinct : Distinct p (.deliverBuckets reply)) :
    Watched (h ++ [(p, .deliverBuckets reply)]) (p.settleBuckets reply) := by
  cases reply with
  | error err =>
      exact hw.of_eq _ rfl ⟨rfl, rfl, rfl, rfl⟩ fun hmounted hstale => ⟨hmounted, hstale⟩
  | ok buckets =>
      constructor
      · exact hdistinct
      · intro n
        have hn := hw.allowed n
        have hasked : (p.settleBuckets (.ok buckets)).store.asked n = p.store.asked n := rfl
        have hoffers : offers (h ++ [(p, .deliverBuckets (.ok buckets))]) n =
            offers h n + if n ∈ offered buckets then 1 else 0 := by
          rw [offers_snoc]
          simp [list, List.countP_cons]
        have hmay : (if n ∈ offered (p.settleBuckets (.ok buckets)).store.state.buckets ∧
            n ∉ (p.settleBuckets (.ok buckets)).store.statsRequested then 1 else 0) =
            if n ∈ offered buckets then 1 else 0 := by
          simp [Page.settleBuckets, Store.settleBuckets]
        omega
      · exact hw.busy
      · intro n hn
        exact absurd hn List.not_mem_nil
      · intro hmounted hstale
        exact absurd (hmounted.symm.trans hstale) (by decide)

theorem Watched.settleStats (hw : Watched h p) {i : ℕ} {request : StatsCall}
    (hrequest : p.store.statsInFlight[i]? = some request) (reply : StatsReply ν) :
    Watched (h ++ [(p, .deliverStats i reply)]) (p.settleStats i reply request) := by
  have hlist : (p.settleStats i reply request).store.state.buckets =
      p.store.state.buckets.map fun b => b.merge request.name reply :=
    congrArg BucketsState.buckets (Store.shift_keeps _ _).1
  have hrequested : (p.settleStats i reply request).store.statsRequested = p.store.statsRequested :=
    (Store.shift_keeps _ _).2
  constructor
  · rw [hlist, map_merge_name]
    exact hw.distinct
  · intro n
    have hn := hw.allowed n
    have hasked : (p.settleStats i reply request).store.asked n = p.store.asked n :=
      p.store.asked_settleStats i reply request n
    rw [hlist, offered_merge, hrequested, hasked, offers_snoc]
    exact hn
  · exact hw.busy.settleStats hrequest reply
  · intro n hn
    rw [hrequested] at hn
    have hold := (hw.accounted n hn).mono fun hr => hr.snoc p (.deliverStats i reply)
    refine (hold.mergeStats hrequest reply ?_).shift _
    rintro rfl
    exact refused_snoc h hrequest
  · intro hmounted hstale n hn
    obtain ⟨hold, hsome⟩ := Bool.or_eq_false_iff.mp hstale
    have hmounted : p.mounted = true := hmounted
    rw [hmounted, Bool.true_and] at hsome
    obtain rfl : reply = none := by simpa using hsome
    rw [hlist] at hn
    rw [hrequested]
    exact hw.tried hmounted hold n (by simpa [BucketInfo.merge] using hn)

theorem Watched.step {q : Page ν} {e : PageEvent ν} (hw : Watched h p) (hdistinct : Distinct p e)
    (hstep : p.step e = some q) : Watched (h ++ [(p, e)]) q := by
  cases e with
  | mount =>
      simp only [Page.step] at hstep
      split_ifs at hstep
      rw [← Option.some.inj hstep]
      exact hw.of_eq _ rfl ⟨rfl, rfl, rfl, rfl⟩ fun _ hstale => nomatch hstale
  | unmount =>
      simp only [Page.step] at hstep
      split_ifs at hstep
      rw [← Option.some.inj hstep]
      exact hw.of_eq _ rfl ⟨rfl, rfl, rfl, rfl⟩ fun hmounted _ => nomatch hmounted
  | effect =>
      simp only [Page.step] at hstep
      split_ifs at hstep
      rw [← Option.some.inj hstep]
      exact hw.effect
  | fetchBuckets =>
      rw [← Option.some.inj hstep]
      exact hw.of_eq _ rfl ⟨rfl, rfl, rfl, rfl⟩ fun hmounted hstale => ⟨hmounted, hstale⟩
  | deliverBuckets reply =>
      simp only [Page.step] at hstep
      split_ifs at hstep
      rw [← Option.some.inj hstep]
      exact hw.settleBuckets hdistinct
  | deliverStats i reply =>
      obtain ⟨request, hrequest, rfl⟩ := Option.map_eq_some_iff.mp hstep
      exact hw.settleStats hrequest reply

theorem Watched.of_runs (hrun : Runs Page.step Distinct {} h p) : Watched h p :=
  hrun.invariant watched_init fun _ _ _ _ hw hdistinct hstep => hw.step hdistinct hstep

/-- An open page whose effect has run, with no numbers on their way. -/
structure AtRest (p : Page ν) : Prop where
  mounted : p.mounted = true
  stale : p.stale = false
  statsInFlight : p.store.statsInFlight = []

/-- Whatever comes in whatever order, a bucket's numbers are requested no more often than lists came
that show it readable, and a page at rest shows the numbers of every readable bucket except where a
request for them was refused. -/
theorem page_asks {h : List (Page ν × PageEvent ν)} {p : Page ν}
    (hrun : Runs step Distinct {} h p) :
    (∀ n, p.store.requests.count n ≤ offers h n) ∧
      (p.AtRest → ∀ b ∈ p.store.state.buckets, b.permissions.read = true →
        b.sizeBytes.isSome ∨ Refused h b.name) := by
  have hwatched := Watched.of_runs hrun
  constructor
  · intro n
    have hn := hwatched.allowed n
    unfold Store.asked at hn
    omega
  · intro hrest b hb hread
    rcases hsize : b.sizeBytes with _ | size
    · have hunlisted : b.name ∈ unlisted p.store.state.buckets :=
        mem_unlisted.mpr ⟨b, hb, rfl, hread, hsize⟩
      have htried := hwatched.tried hrest.mounted hrest.stale b.name hunlisted
      rcases hwatched.accounted b.name htried with hqueued | ⟨r, hr, -⟩ | hrefused | hlisted
      · rw [hwatched.busy.flatten_eq_nil hrest.statsInFlight] at hqueued
        exact absurd hqueued List.not_mem_nil
      · rw [hrest.statsInFlight] at hr
        exact absurd hr List.not_mem_nil
      · exact .inr hrefused
      · have hsome := hlisted b hb rfl
        rw [hsize] at hsome
        exact absurd hsome Bool.false_ne_true
    · exact .inl rfl

/-- The list comes, one request is refused, and every answer with numbers makes the effect run
again. -/
theorem page_asks_fourBuckets :
    ∃ h, ∃ p : Page ℕ, Runs step Distinct {} h p ∧ p.store.requests = Store.fourNames ∧ p.AtRest ∧
      (seen list h).length = 1 ∧ Refused h (str "a") ∧
      p.store.state.buckets.map (·.sizeBytes) = [none, some 10, some 4096, some 0] ∧
      (∀ n, p.store.requests.count n ≤ offers h n) ∧
      ∀ b ∈ p.store.state.buckets, b.permissions.read = true →
        b.sizeBytes.isSome ∨ Refused h b.name := by
  have hnames : (Store.fourBuckets.map (·.name)).Nodup := by decide
  have hstart : Runs step Distinct ({} : Page ℕ) [] {} := .nil
  have hmounted := hstart.snoc (a := PageEvent.mount) trivial rfl
  have hlisted := hmounted.snoc (a := PageEvent.deliverBuckets (.ok Store.fourBuckets)) hnames rfl
  have hasked := hlisted.snoc (a := PageEvent.effect) trivial rfl
  have hfirst :=
    hasked.snoc (a := PageEvent.deliverStats 2 (some ⟨7, 4096, true, none⟩)) trivial rfl
  have hagain := hfirst.snoc (a := PageEvent.effect) trivial rfl
  have hrefused := hagain.snoc (a := PageEvent.deliverStats 0 none) trivial rfl
  have hsecond :=
    hrefused.snoc (a := PageEvent.deliverStats 0 (some ⟨1, 10, false, none⟩)) trivial rfl
  have hthird :=
    hsecond.snoc (a := PageEvent.deliverStats 0 (some ⟨0, 0, false, some 8192⟩)) trivial rfl
  have hdone := hthird.snoc (a := PageEvent.effect) trivial rfl
  exact ⟨_, _, hdone, rfl, ⟨rfl, rfl, rfl⟩, rfl, List.mem_cons_of_mem _ List.mem_cons_self, rfl,
    (page_asks hdone).1, (page_asks hdone).2 ⟨rfl, rfl, rfl⟩⟩

end Page

end PierGateway.Spa.Buckets
