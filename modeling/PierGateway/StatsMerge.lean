import PierGateway.BucketsStore

/-!
# Numbers merged into the list of buckets

Every worker of a call writes a whole new list when its request is answered. It makes it
from the list in the store at that moment, so no answer undoes another. Each name of the
call is requested by one worker, and which numbers a bucket ends up with depends on the
answers and not on their order. The answers of a run are those of its history: each goes
to the request it found in flight.
-/
namespace PierGateway.Spa.Buckets
open GoStrings EventRuns

variable {ν : Type}

/-- Whose request an event answers, and how. -/
def Store.answer (s : Store ν) : StoreEvent ν → Option (Str × StatsReply ν)
  | .deliverStats i reply => s.statsInFlight[i]?.map fun request => (request.name, reply)
  | _ => none

/-- The answers of a history, in order. -/
def answers : List (Store ν × StoreEvent ν) → List (Str × StatsReply ν) := seen Store.answer

/-- A bucket after some answers: with the numbers of its own, if they came, and otherwise as it
was. -/
structure Carries (replies : List (Str × StatsReply ν)) (b c : BucketInfo ν) : Prop where
  name : c.name = b.name
  permissions : c.permissions = b.permissions
  own : ∀ stats, (b.name, some stats) ∈ replies →
    c.objectCount = some stats.objectCount ∧ c.sizeBytes = some stats.sizeBytes ∧
      c.statsTruncated = some stats.truncated ∧ c.quotaBytes = stats.quotaBytes
  unchanged : (∀ stats, (b.name, some stats) ∉ replies) → c = b

theorem Carries.refl (b : BucketInfo ν) : Carries [] b b where
  name := rfl
  permissions := rfl
  own _ h := absurd h List.not_mem_nil
  unchanged _ := rfl

theorem merge_keeps (b : BucketInfo ν) (name : Str) (reply : StatsReply ν) :
    (b.merge name reply).name = b.name ∧ (b.merge name reply).permissions = b.permissions := by
  cases reply with
  | none => exact ⟨rfl, rfl⟩
  | some stats =>
      dsimp only [BucketInfo.merge]
      split_ifs
      · exact ⟨rfl, rfl⟩
      · exact ⟨rfl, rfl⟩

theorem merge_of_ne {b : BucketInfo ν} {name : Str} (h : b.name ≠ name) (reply : StatsReply ν) :
    b.merge name reply = b := by
  cases reply with
  | none => rfl
  | some stats => exact if_neg h

theorem Carries.merge {replies : List (Str × StatsReply ν)} {b c : BucketInfo ν}
    (h : Carries replies b c) {name : Str} (hname : name ∉ replies.map Prod.fst)
    (reply : StatsReply ν) : Carries (replies ++ [(name, reply)]) b (c.merge name reply) where
  name := (merge_keeps c name reply).1.trans h.name
  permissions := (merge_keeps c name reply).2.trans h.permissions
  own stats hstats := by
    rcases List.mem_append.mp hstats with hold | hnew
    · have hmem : c.name ∈ replies.map Prod.fst := by
        rw [h.name]
        exact List.mem_map_of_mem (f := Prod.fst) hold
      rw [merge_of_ne (ne_of_mem_of_not_mem hmem hname)]
      exact h.own stats hold
    · obtain ⟨hb, rfl⟩ := Prod.mk.inj (List.mem_singleton.mp hnew)
      have hc : c.name = name := h.name.trans hb
      simp [BucketInfo.merge, hc]
  unchanged hnone := by
    have hc : c = b := h.unchanged fun stats hstats => hnone stats (List.mem_append_left _ hstats)
    cases reply with
    | none => exact hc
    | some stats =>
        have hne : c.name ≠ name := by
          rw [hc]
          rintro rfl
          exact hnone stats (List.mem_append_right _ (List.mem_singleton.mpr rfl))
        rw [merge_of_ne hne]
        exact hc

theorem Carries.congr {replies replies' : List (Str × StatsReply ν)} {b c : BucketInfo ν}
    (h : Carries replies b c) (hsame : ∀ r, r ∈ replies ↔ r ∈ replies') : Carries replies' b c where
  name := h.name
  permissions := h.permissions
  own stats hstats := h.own stats ((hsame _).mpr hstats)
  unchanged hnone := h.unchanged fun stats hstats => hnone stats ((hsame _).mp hstats)

theorem rightUnique_carries (replies : List (Str × StatsReply ν)) :
    Relator.RightUnique (Carries replies) := by
  intro b c d hc hd
  by_cases hown : ∃ stats, (b.name, some stats) ∈ replies
  · obtain ⟨stats, hstats⟩ := hown
    have hname : c.name = d.name := hc.name.trans hd.name.symm
    have hpermissions : c.permissions = d.permissions := hc.permissions.trans hd.permissions.symm
    obtain ⟨hcount, hsize, htruncated, hquota⟩ := hc.own stats hstats
    obtain ⟨hcount', hsize', htruncated', hquota'⟩ := hd.own stats hstats
    cases c
    cases d
    simp_all
  · have hnone : ∀ stats, (b.name, some stats) ∉ replies := fun stats hstats => hown ⟨stats, hstats⟩
    rw [hc.unchanged hnone, hd.unchanged hnone]

namespace Store

/-- Nothing is in flight, and the record is about to begin. -/
structure Idle (s : Store ν) : Prop where
  statsInFlight : s.statsInFlight = []
  requests : s.requests = []

/-- Nothing happens but answers to requests for numbers. -/
def OnlyReplies (_ : Store ν) : StoreEvent ν → Prop
  | .deliverStats _ _ => True
  | _ => False

/-- The invariant of one call: what was requested and what is queued are its new names in order,
every request is in flight or answered, and the list carries the answers. -/
structure Draining (s₀ : Store ν) (names : List Str) (h : List (Store ν × StoreEvent ν))
    (s : Store ν) : Prop where
  queue : ∃ rest, s.queues[s₀.queues.length]? = some rest ∧ s.requests ++ rest = s₀.fresh names ∧
    (s.statsInFlight = [] → rest = [])
  call : ∀ request ∈ s.statsInFlight, request.call = s₀.queues.length
  replied : (s.statsInFlight.map (·.name) ++ (answers h).map Prod.fst).Perm s.requests
  buckets : List.Forall₂ (Carries (answers h)) s₀.state.buckets s.state.buckets

variable {s₀ s : Store ν} {names : List Str} {h : List (Store ν × StoreEvent ν)}

/-- What a call is sent with is each name once, and so is what it has requested. -/
theorem Draining.nodup_requests (hd : Draining s₀ names h s) (hnames : names.Nodup) :
    s.requests.Nodup := by
  obtain ⟨rest, -, hfresh, -⟩ := hd.queue
  have hnodup : (s.requests ++ rest).Nodup := by
    rw [hfresh]
    exact hnames.filter _
  exact hnodup.of_append_left

theorem Draining.not_replied (hd : Draining s₀ names h s) (hnames : names.Nodup)
    {request : StatsCall} (hrequest : request ∈ s.statsInFlight) :
    request.name ∉ (answers h).map Prod.fst := by
  have hnodup := (hd.replied.nodup_iff).mpr (hd.nodup_requests hnames)
  intro hreplied
  exact List.disjoint_of_nodup_append hnodup (List.mem_map_of_mem hrequest) hreplied

theorem Idle.draining (hidle : s₀.Idle) (names : List Str) :
    Draining s₀ names [] (s₀.fetchBucketStats names) := by
  rw [fetchBucketStats_eq, hidle.statsInFlight, hidle.requests]
  have hbuckets : List.Forall₂ (Carries []) s₀.state.buckets s₀.state.buckets := by
    rw [List.forall₂_same]
    intro b _
    exact Carries.refl b
  refine ⟨⟨(s₀.fresh names).drop statsConcurrency, by simp, by simp, ?_⟩, ?_, ?_, hbuckets⟩
  · intro hnone
    have hfresh : s₀.fresh names = [] := by simpa [statsConcurrency] using hnone
    rw [hfresh, List.drop_nil]
  · intro request hrequest
    rw [List.nil_append] at hrequest
    obtain ⟨name, -, rfl⟩ := List.mem_map.mp hrequest
    rfl
  · simp [answers, Function.comp_def]

theorem answers_snoc (h : List (Store ν × StoreEvent ν)) {i : ℕ} {request : StatsCall}
    (hrequest : s.statsInFlight[i]? = some request) (reply : StatsReply ν) :
    answers (h ++ [(s, .deliverStats i reply)]) = answers h ++ [(request.name, reply)] := by
  unfold answers
  rw [seen_snoc]
  simp [Store.answer, hrequest]

theorem Draining.merge (hd : Draining s₀ names h s) (hnames : names.Nodup) {i : ℕ}
    {request : StatsCall} (hrequest : s.statsInFlight[i]? = some request) (reply : StatsReply ν) :
    ((s.mergeStats i reply request).statsInFlight.map (·.name)
        ++ (answers h ++ [(request.name, reply)]).map Prod.fst).Perm s.requests ∧
      List.Forall₂ (Carries (answers h ++ [(request.name, reply)])) s₀.state.buckets
        (s.mergeStats i reply request).state.buckets := by
  constructor
  · have htaken := (perm_eraseIdx hrequest).map (·.name)
    rw [List.map_append, ← List.append_assoc]
    refine .trans ?_ ((htaken.append_right _).trans hd.replied)
    exact List.perm_append_singleton _ _
  · have hname := hd.not_replied hnames (List.mem_of_getElem? hrequest)
    have hmap : (s.mergeStats i reply request).state.buckets
        = s.state.buckets.map fun b => b.merge request.name reply := rfl
    rw [hmap, List.forall₂_map_right_iff]
    exact hd.buckets.imp fun b c hc => hc.merge hname reply

theorem Draining.settleStats (hd : Draining s₀ names h s) (hnames : names.Nodup) {i : ℕ}
    {request : StatsCall} (hrequest : s.statsInFlight[i]? = some request) (reply : StatsReply ν) :
    Draining s₀ names (h ++ [(s, .deliverStats i reply)]) (s.settleStats i reply request) := by
  obtain ⟨hreplied, hbuckets⟩ := hd.merge hnames hrequest reply
  rw [← answers_snoc h hrequest reply] at hreplied hbuckets
  have hcall : ∀ r ∈ s.statsInFlight.eraseIdx i, r.call = s₀.queues.length := fun r hr =>
    hd.call r (List.mem_of_mem_eraseIdx hr)
  obtain ⟨rest, hqueue, hfresh, hdone⟩ := hd.queue
  have hqueue' : (s.mergeStats i reply request).queues[request.call]? = some rest := by
    rw [hd.call request (List.mem_of_getElem? hrequest)]
    exact hqueue
  unfold Store.settleStats
  cases rest with
  | nil =>
      rw [shift_nil hqueue']
      exact ⟨⟨[], hqueue, hfresh, fun _ => rfl⟩, hcall, hreplied, hbuckets⟩
  | cons name rest =>
      rw [shift_cons hqueue']
      have hplace : request.call = s₀.queues.length :=
        hd.call request (List.mem_of_getElem? hrequest)
      have hlt : request.call < s.queues.length := (List.getElem?_eq_some_iff.mp hqueue').choose
      refine ⟨⟨rest, ?_, ?_, ?_⟩, ?_, ?_, hbuckets⟩
      · rw [← hplace]
        exact List.getElem?_set_self hlt
      · rw [← hfresh]
        simp [mergeStats]
      · intro hnone
        simp at hnone
      · intro r hr
        rcases List.mem_append.mp hr with hr | hr
        · exact hcall r hr
        · obtain rfl := List.mem_singleton.mp hr
          exact hplace
      · have hsent : (s.mergeStats i reply request).requests = s.requests := rfl
        rw [List.map_append, List.append_assoc, hsent]
        refine .trans ?_ (hreplied.append_right [name])
        rw [List.append_assoc]
        exact List.perm_append_comm.append_left _

theorem Draining.step {t : Store ν} {e : StoreEvent ν} (hd : Draining s₀ names h s)
    (hnames : names.Nodup) (honly : OnlyReplies s e) (hstep : s.step e = some t) :
    Draining s₀ names (h ++ [(s, e)]) t := by
  cases e with
  | deliverStats i reply =>
      obtain ⟨request, hrequest, rfl⟩ := Option.map_eq_some_iff.mp hstep
      exact hd.settleStats hnames hrequest reply
  | fetchBuckets => exact honly.elim
  | fetchBucketStats names => exact honly.elim
  | deliverBuckets reply => exact honly.elim

theorem Draining.count_le (hd : Draining s₀ names h s) (hnames : names.Nodup) (name : Str) :
    s.requests.count name ≤ if name ∈ names ∧ name ∉ s₀.statsRequested then 1 else 0 := by
  obtain ⟨rest, -, hfresh, -⟩ := hd.queue
  split_ifs with hnew
  · exact List.nodup_iff_count_le_one.mp (hd.nodup_requests hnames) name
  · have hmem : name ∉ s.requests := by
      intro hmem
      have hin : name ∈ s₀.fresh names := hfresh ▸ List.mem_append_left rest hmem
      exact hnew (mem_fresh.mp hin)
    rw [List.count_eq_zero_of_not_mem hmem]

/-- When nothing is in flight the queue is empty, and the new names have all been requested. -/
theorem Draining.requests_eq (hd : Draining s₀ names h s) (hdone : s.statsInFlight = []) :
    s.requests = s₀.fresh names := by
  obtain ⟨rest, -, hfresh, hrest⟩ := hd.queue
  rw [← hfresh, hrest hdone, List.append_nil]

/-- A completed call: its new names have been requested, each once, and nothing else; each request
was answered once; and the list carries the answers, bucket by bucket. -/
structure MergedOnce (s₀ : Store ν) (names : List Str) (h : List (Store ν × StoreEvent ν))
    (s : Store ν) : Prop where
  requested : ∀ name,
    s.requests.count name = if name ∈ names ∧ name ∉ s₀.statsRequested then 1 else 0
  replied : ((answers h).map Prod.fst).Perm s.requests
  buckets : List.Forall₂ (Carries (answers h)) s₀.state.buckets s.state.buckets

theorem Draining.mergedOnce (hd : Draining s₀ names h s)
    (hnames : names.Nodup) (hdone : s.statsInFlight = []) : MergedOnce s₀ names h s where
  requested name := by
    apply le_antisymm (hd.count_le hnames name)
    split_ifs with hnew
    · rw [List.one_le_count_iff, hd.requests_eq hdone]
      exact mem_fresh.mpr hnew
    · exact Nat.zero_le _
  replied := by
    have hreplied := hd.replied
    rw [hdone] at hreplied
    exact hreplied
  buckets := hd.buckets

theorem MergedOnce.buckets_eq {h' : List (Store ν × StoreEvent ν)} {t : Store ν}
    (hs : MergedOnce s₀ names h s) (ht : MergedOnce s₀ names h' t)
    (hsame : ∀ r, r ∈ answers h' ↔ r ∈ answers h) : t.state.buckets = s.state.buckets := by
  have hcarried : List.Forall₂ (Carries (answers h)) s₀.state.buckets t.state.buckets :=
    ht.buckets.imp fun _ _ hc => hc.congr hsame
  exact List.right_unique_forall₂' (rightUnique_carries (answers h)) hcarried hs.buckets

/-- Alone in the store, a call requests each of its new names once and no other. What it requested
is in flight or answered; and when it is complete the list carries the answers that the run's events
brought, and depends on nothing else. -/
theorem merged_once {s₀ s : Store ν} {names : List Str} {h : List (Store ν × StoreEvent ν)}
    (hidle : s₀.Idle) (hnames : names.Nodup)
    (hrun : Runs step OnlyReplies (s₀.fetchBucketStats names) h s) :
    (∀ name, s.requests.count name ≤ if name ∈ names ∧ name ∉ s₀.statsRequested then 1 else 0) ∧
      (s.statsInFlight.map (·.name) ++ (answers h).map Prod.fst).Perm s.requests ∧
      (s.statsInFlight = [] → MergedOnce s₀ names h s ∧
        ∀ h' t, Runs step OnlyReplies (s₀.fetchBucketStats names) h' t → t.statsInFlight = [] →
          (∀ r, r ∈ answers h' ↔ r ∈ answers h) → t.state.buckets = s.state.buckets) := by
  have hdraining : ∀ h' t, Runs step OnlyReplies (s₀.fetchBucketStats names) h' t →
      Draining s₀ names h' t := fun h' t ht =>
    ht.invariant (hidle.draining names) fun _ _ _ _ hd honly hstep => hd.step hnames honly hstep
  have hs := hdraining h s hrun
  refine ⟨hs.count_le hnames, hs.replied, fun hdone => ?_⟩
  have hmerged := hs.mergedOnce hnames hdone
  refine ⟨hmerged, fun h' t ht htdone hsame => ?_⟩
  exact hmerged.buckets_eq ((hdraining h' t ht).mergedOnce hnames htdone) hsame

/-- A store with two buckets whose numbers are not known. -/
def twoBuckets : Store ℕ where
  state :=
    { buckets := [str "a", str "b"].map fun name =>
        { name := name, permissions := { read := true, write := false } } }

/-- The second bucket is answered first, and the first one not at all. -/
theorem merged_once_twoBuckets :
    ∃ h s, Runs step OnlyReplies (twoBuckets.fetchBucketStats [str "a", str "b"]) h s ∧
      s.requests = [str "a", str "b"] ∧
      answers h = [(str "b", some ⟨7, 4096, true, some 8192⟩), (str "a", none)] ∧
      s.state.buckets =
        [{ name := str "a", permissions := { read := true, write := false } },
          { name := str "b", permissions := { read := true, write := false }, objectCount := some 7,
            sizeBytes := some 4096, statsTruncated := some true, quotaBytes := some 8192 }] ∧
      MergedOnce twoBuckets [str "a", str "b"] h s := by
  have hidle : twoBuckets.Idle := ⟨rfl, rfl⟩
  have hnames : [str "a", str "b"].Nodup := by decide
  have hstart : Runs step OnlyReplies (twoBuckets.fetchBucketStats [str "a", str "b"]) []
      (twoBuckets.fetchBucketStats [str "a", str "b"]) := .nil
  have hfirst :=
    hstart.snoc (a := StoreEvent.deliverStats 1 (some ⟨7, 4096, true, some 8192⟩)) trivial rfl
  have hsecond := hfirst.snoc (a := StoreEvent.deliverStats 0 none) trivial rfl
  exact ⟨_, _, hsecond, rfl, rfl, rfl, ((merged_once hidle hnames hsecond).2.2 rfl).1⟩

end Store

end PierGateway.Spa.Buckets
