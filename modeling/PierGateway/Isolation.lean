import PierGateway.Authorization
import PierGateway.RouteValues
import PierGateway.Restriction
import PierGateway.StatsRuns

/-!
# Buckets do not see each other

The storage behind the interface keeps each bucket on its own, and the gateway adds only
what all requests share: the totals cache, its channels and the clock. A request concerns
some buckets when it is for one of them and its caller has a right there. For these
buckets, every run of the interface is a run of the requests that concern them: the others,
for other buckets or without a right, whatever they carry and however they are interleaved,
change none of the answers, no object and no cached total. The channels of the cache get
other numbers when walks of other buckets are left out, so the runs are matched up to the
numbers.
-/
namespace PierGateway.WebUI
open GoStrings HttpMessages Auth Acl Interaction Proxy

/-! ### A storage of buckets -/

/-- The world and what each bucket holds. -/
structure Stored (β : Type) where
  world : World
  store : Str → β

/-- What a call on a bucket may answer and make of what it holds, told whether the client is
gone. -/
abbrev Serves (β : Type) := Prop → β → (op : Op) → Reply op → β → Prop

/-- A call on a bucket goes to its storage, every other is as before. -/
inductive StoreHandle {β : Type} (serves : Serves β) (names : Outside) (i : ℕ) (s : Stored β) :
    (op : Op) → Reply op → Stored β → Prop
  | bucket {op : Op} {x : Reply op} {bucket method : Str} {t : β}
      (hop : op.scope = some (bucket, method))
      (h : serves (i ∈ s.world.cancelled) (s.store bucket) op x t) :
      StoreHandle serves names i s op x { s with store := Function.update s.store bucket t }
  | own {op : Op} {x : Reply op} {w : World} (hop : op.scope = none)
      (h : Handle names i s.world op x w) :
      StoreHandle serves names i s op x { s with world := w }

def storedSystem (cfg : UIConfig) {β : Type} (serves : Serves β) (names : Outside) :
    System Op Reply Arrival Answer (Stored β) where
  start := (uiSystem cfg names).start
  handle := StoreHandle serves names
  drift s s' := s.world.Drifts s'.world ∧ s'.store = s.store

/-! ### Which calls are about a bucket -/

/-- The bucket whose objects or totals a call reads or changes. -/
def Op.subject : Op → Option Str
  | .listObjects bucket .. => some bucket
  | .getObject bucket _ => some bucket
  | .headObject bucket _ => some bucket
  | .putObject input => some input.bucket
  | .deleteObject bucket _ => some bucket
  | .statsEnter bucket => some bucket
  | .statsRead bucket => some bucket
  | .statsFinish bucket _ _ => some bucket
  | _ => none

/-- A call that has nothing to do with the cache. -/
def Op.Quiet : Op → Prop
  | .statsEnter _ => False
  | .statsWait _ => False
  | .statsRead _ => False
  | .statsFinish .. => False
  | _ => True

theorem Op.subject_of_scope {op : Op} {bucket method : Str} (h : op.scope = some (bucket, method)) :
    op.subject = some bucket := by
  cases op with
  | listObjects | getObject | headObject | putObject | deleteObject =>
      obtain ⟨rfl, -⟩ := Prod.mk.inj (Option.some.inj h)
      rfl
  | _ => cases h

theorem Op.quiet_of_scope {op : Op} {bucket method : Str} (h : op.scope = some (bucket, method)) :
    op.Quiet := by
  cases op with
  | listObjects | getObject | headObject | putObject | deleteObject => trivial
  | _ => cases h

/-- A call that is about a bucket and has nothing to do with the cache is one on its objects. -/
theorem Op.scope_of_subject {op : Op} {bucket : Str} (h : op.subject = some bucket)
    (hq : op.Quiet) :
    ∃ method key, op.scope = some (bucket, method) ∧ op.address = some (bucket, key) := by
  cases op with
  | listObjects | getObject | headObject | putObject | deleteObject =>
      obtain rfl := Option.some.inj h
      exact ⟨_, _, rfl, rfl⟩
  | statsEnter | statsRead | statsFinish => exact absurd hq id
  | _ => cases h

/-! ### The channels of the two runs -/

/-- For each channel made so far, whether its walk is one of a bucket that is kept. The other run
makes only those, in the same order. -/
structure Channels where
  kept : List Bool

namespace Channels
variable {k l : Channels} {ch ch' : ℕ}

instance : Preorder Channels where
  le k l := k.kept <+: l.kept
  le_refl k := List.prefix_refl k.kept
  le_trans _ _ _ h h' := h.trans h'

def snoc (k : Channels) (b : Bool) : Channels := ⟨k.kept ++ [b]⟩

theorem le_snoc (k : Channels) (b : Bool) : k ≤ k.snoc b := List.prefix_append k.kept [b]

/-- The number of a channel in the other run. -/
def Names (k : Channels) (ch ch' : ℕ) : Prop :=
  k.kept[ch]? = some true ∧ (k.kept.take ch).count true = ch'

/-- A channel that the other run does not have. -/
def Out (k : Channels) (ch : ℕ) : Prop := k.kept[ch]? = some false

theorem getElem?_mono (h : k ≤ l) {b : Bool} (hb : k.kept[ch]? = some b) :
    l.kept[ch]? = some b := by
  obtain ⟨rest, hrest⟩ := h
  have hlt : ch < k.kept.length := (List.getElem?_eq_some_iff.mp hb).1
  rw [← hrest, List.getElem?_append_left hlt, hb]

theorem Names.mono (h : k.Names ch ch') (hl : k ≤ l) : l.Names ch ch' := by
  refine ⟨getElem?_mono hl h.1, ?_⟩
  obtain ⟨rest, hrest⟩ := hl
  have hlt : ch < k.kept.length := (List.getElem?_eq_some_iff.mp h.1).1
  rw [← hrest, List.take_append_of_le_length (by omega), h.2]

theorem Out.mono (h : k.Out ch) (hl : k ≤ l) : l.Out ch := getElem?_mono hl h

theorem Names.lt (h : k.Names ch ch') : ch < k.kept.length := (List.getElem?_eq_some_iff.mp h.1).1

theorem Names.not_out (h : k.Names ch ch') : ¬k.Out ch := by
  intro hout
  have hboth := h.1.symm.trans hout
  cases hboth

/-- The channels up to one that is kept are one more than those before it. -/
theorem count_take_succ (h : k.kept[ch]? = some true) :
    (k.kept.take (ch + 1)).count true = (k.kept.take ch).count true + 1 := by
  rw [List.take_add_one, h, List.count_append]
  rfl

theorem count_take_le {m n : ℕ} (h : m ≤ n) :
    (k.kept.take m).count true ≤ (k.kept.take n).count true :=
  (List.take_prefix_take_left h).sublist.count_le true

theorem Names.injective {ch₁ ch₂ : ℕ} (h₁ : k.Names ch₁ ch') (h₂ : k.Names ch₂ ch') :
    ch₁ = ch₂ := by
  have hnot : ∀ {m n : ℕ}, k.Names m ch' → k.Names n ch' → ¬m < n := by
    intro m n hm hn hlt
    have hle := count_take_le (k := k) (Nat.succ_le_of_lt hlt)
    rw [Nat.succ_eq_add_one, count_take_succ hm.1, hm.2, hn.2] at hle
    omega
  have h₁₂ := hnot h₁ h₂
  have h₂₁ := hnot h₂ h₁
  omega

theorem names_snoc (k : Channels) : (k.snoc true).Names k.kept.length (k.kept.count true) := by
  constructor
  · simp [snoc]
  · simp [snoc]

theorem Names.lt_count (h : k.Names ch ch') : ch' < k.kept.count true := by
  have hle : (k.kept.take (ch + 1)).count true ≤ k.kept.count true :=
    (List.take_sublist (ch + 1) k.kept).count_le true
  rw [count_take_succ h.1, h.2] at hle
  omega

theorem names_snoc_cases {b : Bool} (h : (k.snoc b).Names ch ch') :
    k.Names ch ch' ∨ (b = true ∧ ch = k.kept.length) := by
  have hlt := h.lt
  rw [snoc, List.length_append, List.length_singleton] at hlt
  by_cases hold : ch < k.kept.length
  · refine .inl ⟨?_, ?_⟩
    · rw [← h.1, snoc, List.getElem?_append_left hold]
    · rw [← h.2, snoc, List.take_append_of_le_length (by omega)]
  · obtain rfl : ch = k.kept.length := by omega
    have hlast := h.1
    rw [snoc, List.getElem?_concat_length] at hlast
    exact .inr ⟨Option.some.inj hlast, rfl⟩

end Channels

/-! ### Related states -/

section
variable {β : Type} {buckets : Set Str} {k l : Channels}

/-- The caches agree on the buckets that are kept. -/
structure CacheMatches (buckets : Set Str) (k : Channels) (c c' : StatsCache) : Prop where
  entries : ∀ b ∈ buckets, c'.entries.lookup b = c.entries.lookup b
  pending_some : ∀ b ∈ buckets, ∀ ch, c.pending.lookup b = some ch →
    ∃ ch', k.Names ch ch' ∧ c'.pending.lookup b = some ch'
  pending_none : ∀ b ∈ buckets, c.pending.lookup b = none → c'.pending.lookup b = none
  closed : ∀ ch ch', k.Names ch ch' → (ch ∈ c.closed ↔ ch' ∈ c'.closed)
  channels : c.channels = k.kept.length
  kept_channels : c'.channels = k.kept.count true
  bounded : (∀ ch ∈ c.closed, ch < c.channels) ∧ ∀ ch ∈ c'.closed, ch < c'.channels

theorem cacheMatches_empty (buckets : Set Str) : CacheMatches buckets ⟨[]⟩ {} {} := by
  constructor
  · intro b _
    rfl
  · intro b _ ch hch
    rw [Finmap.lookup_empty] at hch
    cases hch
  · intro b _ _
    rfl
  · intro ch ch' h
    exact absurd h.lt (Nat.not_lt_zero ch)
  · rfl
  · rfl
  · simp

namespace CacheMatches
variable {c c' : StatsCache} (now : Time) {b : Str}

theorem freshEntry (h : CacheMatches buckets k c c') (hb : b ∈ buckets) :
    c'.freshEntry now b = c.freshEntry now b := by
  unfold StatsCache.freshEntry
  rw [h.entries b hb]

theorem read (h : CacheMatches buckets k c c') (hb : b ∈ buckets) : c'.read b = c.read b := by
  unfold StatsCache.read
  rw [h.entries b hb]

/-- Both caches answer alike for a bucket that is kept. -/
theorem enter (h : CacheMatches buckets k c c') (hb : b ∈ buckets) :
    (∃ resp, c.enter now b = (.cached resp, c) ∧ c'.enter now b = (.cached resp, c')) ∨
      (∃ ch ch', k.Names ch ch' ∧ c.enter now b = (.wait ch, c) ∧
        c'.enter now b = (.wait ch', c')) ∨
      (c.enter now b = (.walk c.channels,
          { c with pending := c.pending.insert b c.channels, channels := c.channels + 1 }) ∧
        c'.enter now b = (.walk c'.channels, { c' with
          pending := c'.pending.insert b c'.channels, channels := c'.channels + 1 })) := by
  unfold StatsCache.enter
  rw [h.freshEntry now hb]
  cases c.freshEntry now b with
  | some resp => exact .inl ⟨resp, rfl, rfl⟩
  | none =>
      cases hpending : c.pending.lookup b with
      | some ch =>
          obtain ⟨ch', hnames, hpending'⟩ := h.pending_some b hb ch hpending
          rw [hpending']
          exact .inr (.inl ⟨ch, ch', hnames, rfl, rfl⟩)
      | none =>
          rw [h.pending_none b hb hpending]
          exact .inr (.inr ⟨rfl, rfl⟩)

theorem walk (h : CacheMatches buckets k c c') (b : Str) :
    CacheMatches buckets (k.snoc true)
      { c with pending := c.pending.insert b c.channels, channels := c.channels + 1 }
      { c' with pending := c'.pending.insert b c'.channels, channels := c'.channels + 1 } := by
  have hnew : (k.snoc true).Names c.channels c'.channels := by
    rw [h.channels, h.kept_channels]
    exact k.names_snoc
  constructor
  · exact h.entries
  · intro b' hb' ch hch
    by_cases hself : b' = b
    · rw [hself, Finmap.lookup_insert] at hch
      obtain rfl := Option.some.inj hch
      exact ⟨c'.channels, hnew, by rw [hself, Finmap.lookup_insert]⟩
    · rw [Finmap.lookup_insert_of_ne _ hself] at hch
      obtain ⟨ch', hnames, hpending⟩ := h.pending_some b' hb' ch hch
      exact ⟨ch', hnames.mono (k.le_snoc true),
        by rw [Finmap.lookup_insert_of_ne _ hself, hpending]⟩
  · intro b' hb' hnone
    by_cases hself : b' = b
    · rw [hself, Finmap.lookup_insert] at hnone
      cases hnone
    · rw [Finmap.lookup_insert_of_ne _ hself] at hnone ⊢
      exact h.pending_none b' hb' hnone
  · intro ch ch' hnames
    rcases Channels.names_snoc_cases hnames with hold | ⟨-, hch⟩
    · exact h.closed ch ch' hold
    · -- a new channel is open in both
      have hch' : ch' = c'.channels := by
        rw [← hnames.2, h.kept_channels, hch]
        simp [Channels.snoc]
      have hopen : ch ∉ c.closed := by
        intro hmem
        have hlt := h.bounded.1 ch hmem
        rw [h.channels] at hlt
        omega
      have hopen' : ch' ∉ c'.closed := by
        intro hmem
        have hlt := h.bounded.2 ch' hmem
        omega
      exact iff_of_false hopen hopen'
  · simp [Channels.snoc, h.channels]
  · simp [Channels.snoc, h.kept_channels]
  · constructor
    · intro ch hch
      exact (h.bounded.1 ch hch).trans (Nat.lt_succ_self _)
    · intro ch hch
      exact (h.bounded.2 ch hch).trans (Nat.lt_succ_self _)

theorem walk_out (h : CacheMatches buckets k c c') (hb : b ∉ buckets) :
    CacheMatches buckets (k.snoc false)
      { c with pending := c.pending.insert b c.channels, channels := c.channels + 1 } c' := by
  have hother : ∀ b' ∈ buckets, (c.pending.insert b c.channels).lookup b' =
      c.pending.lookup b' := by
    intro b' hb'
    apply Finmap.lookup_insert_of_ne
    rintro rfl
    exact hb hb'
  constructor
  · exact h.entries
  · intro b' hb' ch hch
    obtain ⟨ch', hnames, hpending⟩ := h.pending_some b' hb' ch ((hother b' hb').symm.trans hch)
    exact ⟨ch', hnames.mono (k.le_snoc false), hpending⟩
  · intro b' hb' hnone
    exact h.pending_none b' hb' ((hother b' hb').symm.trans hnone)
  · intro ch ch' hnames
    rcases Channels.names_snoc_cases hnames with hold | ⟨hfalse, -⟩
    · exact h.closed ch ch' hold
    · cases hfalse
  · simp [Channels.snoc, h.channels]
  · simp [Channels.snoc, h.kept_channels]
  · refine ⟨fun ch hch => ?_, h.bounded.2⟩
    exact (h.bounded.1 ch hch).trans (Nat.lt_succ_self _)

theorem finish (h : CacheMatches buckets k c c') (b : Str) {ch ch' : ℕ} (hnames : k.Names ch ch')
    (result : Option BucketStatsResponse) :
    CacheMatches buckets k (c.finish now b ch result) (c'.finish now b ch' result) := by
  constructor
  · intro b' hb'
    cases result with
    | none => exact h.entries b' hb'
    | some resp =>
        dsimp only [StatsCache.finish]
        by_cases hself : b' = b
        · rw [hself, Finmap.lookup_insert, Finmap.lookup_insert]
        · rw [Finmap.lookup_insert_of_ne _ hself, Finmap.lookup_insert_of_ne _ hself,
            h.entries b' hb']
  · intro b' hb' ch₁ hch
    dsimp only [StatsCache.finish] at hch ⊢
    by_cases hself : b' = b
    · rw [hself, Finmap.lookup_erase] at hch
      cases hch
    · rw [Finmap.lookup_erase_ne hself] at hch ⊢
      exact h.pending_some b' hb' ch₁ hch
  · intro b' hb' hnone
    dsimp only [StatsCache.finish] at hnone ⊢
    by_cases hself : b' = b
    · rw [hself, Finmap.lookup_erase]
    · rw [Finmap.lookup_erase_ne hself] at hnone ⊢
      exact h.pending_none b' hb' hnone
  · intro ch₁ ch₁' hnames₁
    dsimp only [StatsCache.finish]
    rw [Finset.mem_insert, Finset.mem_insert, h.closed ch₁ ch₁' hnames₁]
    apply or_congr_left
    constructor
    · rintro rfl
      exact hnames₁.2.symm.trans hnames.2
    · rintro rfl
      exact hnames₁.injective hnames
  · exact h.channels
  · exact h.kept_channels
  · constructor
    · intro ch₁ hch₁
      rcases Finset.mem_insert.mp hch₁ with rfl | hold
      · exact hnames.lt.trans_eq h.channels.symm
      · exact h.bounded.1 ch₁ hold
    · intro ch₁ hch₁
      rcases Finset.mem_insert.mp hch₁ with rfl | hold
      · exact hnames.lt_count.trans_eq h.kept_channels.symm
      · exact h.bounded.2 ch₁ hold

theorem finish_out (h : CacheMatches buckets k c c') (hb : b ∉ buckets) {ch : ℕ} (hout : k.Out ch)
    (result : Option BucketStatsResponse) :
    CacheMatches buckets k (c.finish now b ch result) c' := by
  have hother : ∀ b' ∈ buckets, b' ≠ b := by
    rintro b' hb' rfl
    exact hb hb'
  constructor
  · intro b' hb'
    cases result with
    | none => exact h.entries b' hb'
    | some resp =>
        dsimp only [StatsCache.finish]
        rw [Finmap.lookup_insert_of_ne _ (hother b' hb'), h.entries b' hb']
  · intro b' hb' ch₁ hch
    dsimp only [StatsCache.finish] at hch
    rw [Finmap.lookup_erase_ne (hother b' hb')] at hch
    exact h.pending_some b' hb' ch₁ hch
  · intro b' hb' hnone
    dsimp only [StatsCache.finish] at hnone
    rw [Finmap.lookup_erase_ne (hother b' hb')] at hnone
    exact h.pending_none b' hb' hnone
  · intro ch₁ ch₁' hnames
    have hne : ch₁ ≠ ch := by
      rintro rfl
      exact hnames.not_out hout
    dsimp only [StatsCache.finish]
    rw [Finset.mem_insert, or_iff_right hne]
    exact h.closed ch₁ ch₁' hnames
  · exact h.channels
  · exact h.kept_channels
  · refine ⟨fun ch₁ hch₁ => ?_, h.bounded.2⟩
    rcases Finset.mem_insert.mp hch₁ with rfl | hold
    · exact (List.getElem?_eq_some_iff.mp hout).1.trans_eq h.channels.symm
    · exact h.bounded.1 ch₁ hold

end CacheMatches

/-- The two runs are at the same time and agree on what is kept. -/
structure StoredMatches (buckets : Set Str) (k : Channels) (s s' : Stored β) : Prop where
  cache : CacheMatches buckets k s.world.cache s'.world.cache
  now : s'.world.now = s.world.now
  cancelled : s'.world.cancelled = s.world.cancelled
  store : ∀ b ∈ buckets, s'.store b = s.store b

/-! ### Related calls -/

inductive CallMatches (buckets : Set Str) (k : Channels) : Op → Op → Prop
  | wait {ch ch' : ℕ} (h : k.Names ch ch') : CallMatches buckets k (.statsWait ch) (.statsWait ch')
  | finish {b : Str} {ch ch' : ℕ} {result : Option BucketStatsResponse} (h : k.Names ch ch') :
      CallMatches buckets k (.statsFinish b ch result) (.statsFinish b ch' result)
  | enter {b : Str} (hb : b ∈ buckets) : CallMatches buckets k (.statsEnter b) (.statsEnter b)
  | read {b : Str} (hb : b ∈ buckets) : CallMatches buckets k (.statsRead b) (.statsRead b)
  | quiet {op : Op} (hop : op.Quiet) (hb : ∀ b, op.subject = some b → b ∈ buckets) :
      CallMatches buckets k op op

inductive ReplyMatches (k : Channels) : (op op' : Op) → Reply op → Reply op' → Prop
  | wait {ch ch' : ℕ} (woken : Bool) : ReplyMatches k (.statsWait ch) (.statsWait ch') woken woken
  | finish {b : Str} {ch ch' : ℕ} {result : Option BucketStatsResponse} :
      ReplyMatches k (.statsFinish b ch result) (.statsFinish b ch' result) () ()
  | cached {b : Str} (resp : BucketStatsResponse) :
      ReplyMatches k (.statsEnter b) (.statsEnter b) (.cached resp) (.cached resp)
  | waits {b : Str} {ch ch' : ℕ} (h : k.Names ch ch') :
      ReplyMatches k (.statsEnter b) (.statsEnter b) (.wait ch) (.wait ch')
  | walks {b : Str} {ch ch' : ℕ} (h : k.Names ch ch') :
      ReplyMatches k (.statsEnter b) (.statsEnter b) (.walk ch) (.walk ch')
  | read {b : Str} (entry : Option BucketStatsResponse) :
      ReplyMatches k (.statsRead b) (.statsRead b) entry entry
  | quiet {op : Op} (hop : op.Quiet) (x : Reply op) : ReplyMatches k op op x x

/-- What a walk that is left out is told is its channel. -/
def Told (k : Channels) : (op : Op) → Reply op → Prop
  | .statsEnter _, .walk ch => k.Out ch
  | _, _ => True

/-- A call that is left out is about another bucket, and closes no channel that is kept. -/
structure HiddenCall (buckets : Set Str) (k : Channels) (op : Op) : Prop where
  subject : ∀ b, op.subject = some b → b ∉ buckets
  channel : ∀ b ch result, op = .statsFinish b ch result → k.Out ch

def isolation (buckets : Set Str) : Matching Channels Op Reply where
  calls := CallMatches buckets
  replies := ReplyMatches
  hidden := HiddenCall buckets
  told := Told

/-! ### One call -/

variable {serves : Serves β} {names : Outside} {i : ℕ} {s s' t : Stored β}

theorem StoredMatches.withCache (h : StoredMatches buckets k s s') {c c' : StatsCache}
    (hc : CacheMatches buckets l c c') :
    StoredMatches buckets l { s with world := { s.world with cache := c } }
      { s' with world := { s'.world with cache := c' } } :=
  ⟨hc, h.now, h.cancelled, h.store⟩

theorem enter_kept (h : StoredMatches buckets k s s') {b : Str} (hb : b ∈ buckets) :
    ∃ l x' t', k ≤ l ∧ StoreHandle serves names i s' (.statsEnter b) x' t' ∧
      ReplyMatches l (.statsEnter b) (.statsEnter b) (s.world.cache.enter s.world.now b).1 x' ∧
      StoredMatches buckets l
        { s with world := { s.world with cache := (s.world.cache.enter s.world.now b).2 } } t' := by
  have hhandle :
      StoreHandle serves names i s' (.statsEnter b) (s'.world.cache.enter s.world.now b).1
      { s' with world := { s'.world with cache := (s'.world.cache.enter s.world.now b).2 } } := by
    rw [← h.now]
    exact .own rfl (.enter b)
  rcases h.cache.enter s.world.now hb with
    ⟨resp, heq, heq'⟩ | ⟨ch, ch', hnames, heq, heq'⟩ | ⟨heq, heq'⟩
  · rw [heq'] at hhandle
    rw [heq]
    exact ⟨k, _, _, le_rfl, hhandle, .cached resp, h.withCache h.cache⟩
  · rw [heq'] at hhandle
    rw [heq]
    exact ⟨k, _, _, le_rfl, hhandle, .waits hnames, h.withCache h.cache⟩
  · rw [heq'] at hhandle
    rw [heq]
    have hnew : (k.snoc true).Names s.world.cache.channels s'.world.cache.channels := by
      rw [h.cache.channels, h.cache.kept_channels]
      exact k.names_snoc
    exact ⟨k.snoc true, _, _, k.le_snoc true, hhandle, .walks hnew, h.withCache (h.cache.walk b)⟩

/-- A call that has nothing to do with the cache is answered alike. -/
theorem quiet_kept (h : StoredMatches buckets k s s') {op : Op} {x : Reply op} (hop : op.Quiet)
    (hb : ∀ b, op.subject = some b → b ∈ buckets) (hs : StoreHandle serves names i s op x t) :
    ∃ t', StoreHandle serves names i s' op x t' ∧ StoredMatches buckets k t t' := by
  cases hs with
  | @bucket bucket method t hscope hserve =>
      have hbucket := hb bucket (Op.subject_of_scope hscope)
      rw [← h.cancelled, ← h.store bucket hbucket] at hserve
      refine ⟨_, .bucket hscope hserve, h.cache, h.now, h.cancelled, ?_⟩
      intro b hb'
      dsimp only
      by_cases hself : b = bucket
      · rw [hself, Function.update_self, Function.update_self]
      · rw [Function.update_of_ne hself, Function.update_of_ne hself, h.store b hb']
  | own hscope hown =>
      cases hown with
      | enter | woken | gone | read | finish => exact absurd hop id
      | storage hlist hout =>
          rw [← h.cancelled] at hout
          exact ⟨_, .own hscope (.storage hlist hout), h⟩
      | allow key x => exact ⟨_, .own hscope (.allow key x), h⟩
      | randomBytes n x hx => exact ⟨_, .own hscope (.randomBytes n x hx), h⟩
      | exchangeCode code codeVerifier x =>
          exact ⟨_, .own hscope (.exchangeCode code codeVerifier x), h⟩

/-- Whatever a kept request calls, it can call in the other run. -/
theorem call_kept (h : StoredMatches buckets k s s') {op op' : Op} {x : Reply op}
    (hcall : CallMatches buckets k op op') (hs : StoreHandle serves names i s op x t) :
    ∃ l x' t', k ≤ l ∧ StoreHandle serves names i s' op' x' t' ∧ ReplyMatches l op op' x x' ∧
      StoredMatches buckets l t t' := by
  cases hcall with
  | quiet hop hb =>
      obtain ⟨t', hs', ht⟩ := quiet_kept h hop hb hs
      exact ⟨k, x, t', le_rfl, hs', .quiet hop x, ht⟩
  | enter hb =>
      cases hs with
      | bucket hscope _ => cases hscope
      | own hscope hown =>
          obtain ⟨rfl, rfl⟩ := hown.of_enter
          exact enter_kept h hb
  | read hb =>
      cases hs with
      | bucket hscope _ => cases hscope
      | own hscope hown =>
          obtain ⟨rfl, rfl⟩ := hown.of_read
          rw [← h.cache.read hb]
          exact ⟨k, _, s', le_rfl, .own rfl (.read _), .read _, h⟩
  | @wait ch ch' hnames =>
      cases hs with
      | bucket hscope _ => cases hscope
      | own hscope hown =>
          obtain ⟨rfl, hclosed, hgone⟩ := hown.of_wait
          have hown' : Handle names i s'.world (.statsWait ch') x s'.world := by
            cases x with
            | true => exact .woken ((h.cache.closed ch ch' hnames).mp (hclosed rfl))
            | false => exact .gone ch' (by rw [h.cancelled]; exact hgone rfl)
          exact ⟨k, x, s', le_rfl, .own rfl hown', .wait x, h⟩
  | @finish b ch ch' result hnames =>
      cases hs with
      | bucket hscope _ => cases hscope
      | own hscope hown =>
          obtain rfl := hown.of_finish
          have hown' : Handle names i s'.world (.statsFinish b ch' result) ()
              { s'.world with cache := s'.world.cache.finish s.world.now b ch' result } := by
            rw [← h.now]
            exact .finish b ch' result
          exact ⟨k, (), _, le_rfl, .own rfl hown', .finish,
            h.withCache (h.cache.finish s.world.now b hnames result)⟩

/-- Whatever a request that is left out calls, what is kept stays as it was. -/
theorem call_hidden (h : StoredMatches buckets k s s') {op : Op} {x : Reply op}
    (hcall : HiddenCall buckets k op) (hs : StoreHandle serves names i s op x t) :
    ∃ l, k ≤ l ∧ Told l op x ∧ StoredMatches buckets l t s' := by
  cases hs with
  | @bucket bucket method t hscope hserve =>
      have hout := hcall.subject bucket (Op.subject_of_scope hscope)
      refine ⟨k, le_rfl, ?_, h.cache, h.now, h.cancelled, ?_⟩
      · cases op with
        | statsEnter => cases hscope
        | _ => trivial
      · intro b hb
        have hne : b ≠ bucket := by
          rintro rfl
          exact hout hb
        dsimp only
        rw [Function.update_of_ne hne, h.store b hb]
  | own hscope hown =>
      cases hown with
      | enter b =>
          have hout := hcall.subject b rfl
          rcases s.world.cache.enter_cases s.world.now b with
            ⟨resp, -, heq⟩ | ⟨ch, -, heq⟩ | ⟨-, heq⟩
          · rw [heq]
            exact ⟨k, le_rfl, trivial, h⟩
          · rw [heq]
            exact ⟨k, le_rfl, trivial, h⟩
          · rw [heq]
            have hnew : (k.snoc false).Out s.world.cache.channels := by
              rw [h.cache.channels]
              simp [Channels.Out, Channels.snoc]
            exact ⟨k.snoc false, k.le_snoc false, hnew, h.cache.walk_out hout, h.now, h.cancelled,
              h.store⟩
      | finish b ch result =>
          have hcache := h.cache.finish_out s.world.now (hcall.subject b rfl)
            (hcall.channel b ch result rfl) result
          exact ⟨k, le_rfl, trivial, hcache, h.now, h.cancelled, h.store⟩
      | woken hch => exact ⟨k, le_rfl, trivial, h⟩
      | gone ch hi => exact ⟨k, le_rfl, trivial, h⟩
      | read b => exact ⟨k, le_rfl, trivial, h⟩
      | storage hlist hout =>
          refine ⟨k, le_rfl, ?_, h⟩
          cases op with
          | statsEnter => simp [Op.scope] at hlist
          | _ => trivial
      | allow key x => exact ⟨k, le_rfl, trivial, h⟩
      | randomBytes n x hx => exact ⟨k, le_rfl, trivial, h⟩
      | exchangeCode code codeVerifier x => exact ⟨k, le_rfl, trivial, h⟩

theorem drift_kept (h : StoredMatches buckets k s s')
    (hd : s.world.Drifts t.world ∧ t.store = s.store) :
    ∃ t' : Stored β, (s'.world.Drifts t'.world ∧ t'.store = s'.store) ∧
        StoredMatches buckets k t t' := by
  obtain ⟨⟨hcache, hnow, hcancelled⟩, hstore⟩ := hd
  refine ⟨{ s' with world := { t.world with cache := s'.world.cache } }, ⟨⟨rfl, ?_, ?_⟩, rfl⟩, ?_⟩
  · rw [h.now]
    exact hnow
  · rw [h.cancelled]
    exact hcancelled
  · refine ⟨?_, rfl, rfl, ?_⟩
    · rw [hcache]
      exact h.cache
    · rw [hstore]
      exact h.store

end

/-! ### What each request calls -/

section
variable {cfg : UIConfig}

/-- Nothing is asked of the replies or of the answer. -/
abbrev Calls (allowed : Op → Prop) (p : Prog Op Reply Answer) : Prop :=
  p.Safe allowed (fun _ _ => True) fun _ => True

theorem quiet_keyed (cfg : UIConfig) (use : KeyUse) (r : UIRequest) :
    Calls Op.Quiet (cfg.inner use.endpoint r) := by
  obtain ⟨bucket, key, -, honkey⟩ := onKey_inner cfg use r
  apply Prog.safe_of_issues
  intro op hop
  obtain ⟨method, hscope⟩ := Op.scope_of_address (honkey.calls op hop)
  exact Op.quiet_of_scope hscope

theorem quiet_handleLogin (oidcCfg : Option OIDCConfig) (r : UIRequest) :
    Calls Op.Quiet (handleLogin oidcCfg r) := by
  cases oidcCfg with
  | none => trivial
  | some cfg =>
      refine ⟨trivial, fun codeVerifier _ => ?_⟩
      cases codeVerifier with
      | error err => trivial
      | ok codeVerifier =>
          refine ⟨trivial, fun state _ => ?_⟩
          cases state with
          | error err => trivial
          | ok state => trivial

theorem quiet_handleCallback (oidcCfg : Option OIDCConfig) (r : UIRequest) :
    Calls Op.Quiet (handleCallback oidcCfg r) := by
  cases oidcCfg with
  | none => trivial
  | some cfg =>
      unfold handleCallback
      dsimp only
      split_ifs
      · trivial
      · trivial
      · trivial
      · cases nonEmptyCookie r pkceVerifierCookie with
        | none => trivial
        | some codeVerifier =>
            refine ⟨trivial, fun out _ => ?_⟩
            cases out with
            | error err => trivial
            | ok tokens => trivial

theorem quiet_handleLogout (oidcCfg : Option OIDCConfig) (r : UIRequest) :
    Calls Op.Quiet (handleLogout oidcCfg r) := by
  unfold handleLogout
  split_ifs
  · trivial
  · trivial

theorem quiet_handleListBuckets (a : API) (r : UIRequest) :
    Calls Op.Quiet (a.handleListBuckets r) := by
  unfold API.handleListBuckets
  dsimp only
  split_ifs
  · refine ⟨trivial, fun out _ => ?_⟩
    cases out with
    | error err => trivial
    | ok names => trivial
  · trivial

theorem quiet_handleListObjects (a : API) (r : UIRequest) :
    Calls Op.Quiet (a.handleListObjects r) := by
  unfold API.handleListObjects
  dsimp only
  split
  · trivial
  · split
    · trivial
    · split
      · trivial
      · refine ⟨trivial, fun out _ => ?_⟩
        cases out with
        | error err => trivial
        | ok result => trivial

/-- Only the totals use the cache. -/
theorem quiet_inner (cfg : UIConfig) {e : Endpoint} (he : e ≠ .stats) (r : UIRequest) :
    Calls Op.Quiet (cfg.inner e r) := by
  cases e with
  | login => exact quiet_handleLogin cfg.oidcCfg r
  | callback => exact quiet_handleCallback cfg.oidcCfg r
  | me => trivial
  | logout => exact quiet_handleLogout cfg.oidcCfg r
  | buckets => exact quiet_handleListBuckets cfg.api r
  | stats => exact absurd rfl he
  | objectMeta => exact quiet_keyed cfg .inspect r
  | getObject => exact quiet_keyed cfg .download r
  | putObject => exact quiet_keyed cfg .upload r
  | deleteObject => exact quiet_keyed cfg .remove r
  | listObjects => exact quiet_handleListObjects cfg.api r

theorem quiet_handler (a : Arrival) (he : a.endpoint ≠ .stats) :
    Calls Op.Quiet (cfg.handler a.verifier a.endpoint a.request) := by
  unfold UIConfig.handler
  split_ifs with hthrottled
  · refine ⟨trivial, fun verdict _ => ?_⟩
    cases verdict with
    | false => trivial
    | true => exact quiet_inner cfg he a.request
  · apply safe_authMiddleware
    · intro status code message
      trivial
    · intro claims username _ _
      exact quiet_inner cfg he _

/-- The bucket of a request, or nothing. -/
def Arrival.bucket (a : Arrival) : Str := (a.endpoint.target a.request).1

theorem subject_of_handler (a : Arrival) (he : a.endpoint ≠ .stats) :
    Calls (fun op => op.Quiet ∧ ∀ b, op.subject = some b →
      b = a.bucket ∧ b ≠ [] ∧ ∃ method, Cleared cfg a b method)
      (cfg.handler a.verifier a.endpoint a.request) := by
  have hboth := (safe_handler cfg a).both (quiet_handler a he) (by
    intro op x hop _
    cases op with
    | statsEnter | statsRead => exact absurd hop id
    | _ => trivial)
  apply hboth.mono
  · intro op hop
    refine ⟨hop.2, fun b hb => ?_⟩
    obtain ⟨method, key, hscope, haddress⟩ := Op.scope_of_subject hb hop.2
    obtain ⟨htarget, hne⟩ := hop.1.address _ haddress
    exact ⟨congrArg Prod.fst htarget, hne, method, hop.1.access b method hscope⟩
  · intro answer _
    trivial

theorem authMiddleware_cases (verifier : TokenVerifier) (mapper : ClaimMapper) (next : Handler)
    (r : UIRequest) :
    (∃ answer, authMiddlewareWithMapper verifier mapper next r = .done answer) ∨
      ∃ claims, (extractToken r).1 ≠ [] ∧ verifier (extractToken r).1 = .ok claims ∧
        authMiddlewareWithMapper verifier mapper next r =
          next { r with identity := some ⟨claims, mapper.user claims, mapper.groups claims⟩ } := by
  unfold authMiddlewareWithMapper
  dsimp only
  split_ifs with htoken
  · exact .inl ⟨_, rfl⟩
  · exact .inl ⟨_, rfl⟩
  · cases hv : verifier (extractToken r).1 with
    | error err => exact .inl ⟨_, rfl⟩
    | ok claims => exact .inr ⟨claims, htoken, rfl, rfl⟩

theorem start_stats (cfg : UIConfig) (a : Arrival) (he : a.endpoint = .stats) :
    (∃ answer, cfg.handler a.verifier a.endpoint a.request = .done answer) ∨
      (a.bucket ≠ [] ∧ Cleared cfg a a.bucket (str "GET") ∧
        cfg.handler a.verifier a.endpoint a.request = cfg.api.answerStats a.bucket) := by
  have hbucket : a.bucket = bucketFromRequest a.request := by
    unfold Arrival.bucket
    rw [he]
    rfl
  have hhandler : cfg.handler a.verifier a.endpoint a.request =
      authMiddlewareWithMapper a.verifier cfg.mapper cfg.api.handleBucketStats a.request := by
    rw [he]
    rfl
  rw [hhandler, hbucket]
  rcases authMiddleware_cases a.verifier cfg.mapper cfg.api.handleBucketStats a.request with
    hdone | ⟨claims, htoken, hv, heq⟩
  · exact .inl hdone
  · rw [heq]
    generalize hknown : ({ a.request with identity := _ } : UIRequest) = r
    have hsame : bucketFromRequest a.request = bucketFromRequest r := by
      rw [← hknown]
      rfl
    have hgroups : getGroups r = cfg.mapper.groups claims := by
      rw [← hknown]
      rfl
    rcases handleBucketStats_cases cfg.api r with
      ⟨⟨hne, haccess, -⟩, hstats⟩ | ⟨-, answer, hstats, -⟩
    · rw [hsame]
      rw [hgroups] at haccess
      exact .inr ⟨hne, ⟨claims, htoken, hv, haccess⟩, hstats⟩
    · exact .inl ⟨answer, hstats⟩

end

/-! ### Requests that are kept and requests that are left out -/

section
variable {buckets : Set Str} {k : Channels}

/-- A program whose calls are about kept buckets only, and not about the cache. -/
theorem matches_of_quiet {α : Type} {right : α → Prop} {p : Prog Op Reply α}
    (h : p.Safe (fun op => op.Quiet ∧ ∀ b, op.subject = some b →
      b ∈ buckets) (fun _ _ => True) right) :
    p.Matches (isolation buckets) k p := by
  apply Prog.matches_of_safe (h.mono (fun op hop => ?_) fun _ => id)
  refine ⟨fun l => .quiet hop.1 hop.2, fun l x x' hx => ?_⟩
  cases hx with
  | quiet => rfl
  | wait => rfl
  | finish => rfl
  | read => rfl
  | cached | waits | walks => exact absurd hop.1 id

theorem hidden_of_quiet {α : Type} {right : α → Prop} {p : Prog Op Reply α}
    (h : p.Safe (fun op => op.Quiet ∧ ∀ b, op.subject = some b →
      b ∉ buckets) (fun _ _ => True) right) :
    p.Hidden (isolation buckets) k := by
  apply Prog.hidden_of_safe (h.mono (fun op hop l => ?_) fun _ => id)
  refine ⟨hop.2, fun b ch result heq => ?_⟩
  rw [heq] at hop
  exact absurd hop.1 id

/-- The totals of a kept bucket, up to the number of a channel. -/
theorem matches_answerStats (a : API) {bucket : Str} (hb : bucket ∈ buckets) :
    (a.answerStats bucket).Matches (isolation buckets) k (a.answerStats bucket) := by
  refine .call (.enter hb) fun l x x' _ hx => ?_
  cases hx with
  | quiet hop => exact absurd hop id
  | cached resp => exact .done l _
  | waits hnames =>
      refine .call (.wait hnames) fun m x x' _ hx => ?_
      cases hx with
      | quiet hop => exact absurd hop id
      | wait =>
          cases x with
          | false => exact .done m _
          | true =>
              refine .call (.read hb) fun n x x' _ hx => ?_
              cases hx with
              | quiet hop => exact absurd hop id
              | read => cases x <;> exact .done n _
  | walks hnames =>
      apply Prog.Matches.bind
      · apply matches_of_quiet ((safe_computeBucketStats a bucket).mono
          (fun op hop => ?_) fun _ => id)
        obtain ⟨token, rfl⟩ := hop
        refine ⟨trivial, fun b hsubject => ?_⟩
        obtain rfl := Option.some.inj hsubject
        exact hb
      · intro m result hm
        refine .call (.finish (hnames.mono hm)) fun n x x' _ hx => ?_
        cases result with
        | error err => exact .done n _
        | ok resp => exact .done n _

theorem hidden_answerStats (a : API) {bucket : Str} (hb : bucket ∉ buckets) :
    (a.answerStats bucket).Hidden (isolation buckets) k := by
  have hsubject : ∀ b, some bucket = some b → b ∉ buckets := by
    intro b h
    obtain rfl := Option.some.inj h
    exact hb
  refine .call ⟨hsubject, fun b ch result heq => (by cases heq)⟩ fun l x _ hx => ?_
  cases x with
  | cached resp => exact .done l _
  | wait ch =>
      refine .call ⟨fun b h => (by cases h),
        fun b ch result heq => (by cases heq)⟩ fun m woken _ _ => ?_
      cases woken with
      | false => exact .done m _
      | true =>
          refine .call ⟨hsubject, fun b ch result heq => (by cases heq)⟩ fun n entry _ _ => ?_
          cases entry <;> exact .done n _
  | walk ch =>
      apply Prog.Hidden.bind
      · apply hidden_of_quiet ((safe_computeBucketStats a bucket).mono
          (fun op hop => ?_) fun _ => id)
        obtain ⟨token, rfl⟩ := hop
        exact ⟨trivial, hsubject⟩
      · intro m result hm
        refine .call ⟨hsubject, fun b ch' result' heq => ?_⟩ fun n x _ _ => ?_
        · obtain ⟨-, rfl, -⟩ := Op.statsFinish.inj heq
          exact hx.mono hm
        · cases result with
          | error err => exact .done n _
          | ok resp => exact .done n _

end

/-! ### The theorem -/

section
variable (cfg : UIConfig) (buckets : Set Str)

/-- A request that has no bucket, or one of these with a caller who has a right there. -/
def Concerns (a : Arrival) : Prop :=
  a.bucket = [] ∨ a.bucket ∈ buckets ∧ ∃ method, Cleared cfg a a.bucket method

theorem matches_handler {a : Arrival} (ha : Concerns cfg buckets a) (k : Channels) :
    (cfg.handler a.verifier a.endpoint a.request).Matches (isolation buckets) k
      (cfg.handler a.verifier a.endpoint a.request) := by
  by_cases he : a.endpoint = .stats
  · rcases start_stats cfg a he with ⟨answer, hdone⟩ | ⟨hne, -, heq⟩
    · rw [hdone]
      exact .done k answer
    · rw [heq]
      exact matches_answerStats cfg.api (ha.resolve_left hne).1
  · apply matches_of_quiet ((subject_of_handler a he).mono (fun op hop => ?_) fun _ => id)
    refine ⟨hop.1, fun b hb => ?_⟩
    obtain ⟨rfl, hne, -⟩ := hop.2 b hb
    exact (ha.resolve_left hne).1

theorem hidden_handler {a : Arrival} (ha : ¬Concerns cfg buckets a) (k : Channels) :
    (cfg.handler a.verifier a.endpoint a.request).Hidden (isolation buckets) k := by
  have hout : ∀ {method : Str}, Cleared cfg a a.bucket method → a.bucket ∉ buckets := by
    intro method hcleared hmem
    exact ha (.inr ⟨hmem, method, hcleared⟩)
  by_cases he : a.endpoint = .stats
  · rcases start_stats cfg a he with ⟨answer, hdone⟩ | ⟨-, hcleared, heq⟩
    · rw [hdone]
      exact .done k answer
    · rw [heq]
      exact hidden_answerStats cfg.api (hout hcleared)
  · apply hidden_of_quiet ((subject_of_handler a he).mono (fun op hop => ?_) fun _ => id)
    refine ⟨hop.1, fun b hb => ?_⟩
    obtain ⟨rfl, -, method, hcleared⟩ := hop.2 b hb
    exact hout hcleared

variable {β : Type} (serves : Serves β) (names : Outside)

theorem restriction_of_buckets :
    Restriction (storedSystem cfg serves names) (isolation buckets) (Concerns cfg buckets)
      (StoredMatches buckets) where
  calls_mono k l op op' hl h := by
    cases h with
    | wait h => exact .wait (h.mono hl)
    | finish h => exact .finish (h.mono hl)
    | enter hb => exact .enter hb
    | read hb => exact .read hb
    | quiet hop hb => exact .quiet hop hb
  hidden_mono k l op hl h := ⟨h.subject, fun b ch result heq => (h.channel b ch result heq).mono hl⟩
  start_kept k a ha := matches_handler cfg buckets ha k
  start_hidden k a ha := hidden_handler cfg buckets ha k
  call_kept i k s s' op op' x t h hcall hs := call_kept h hcall hs
  call_hidden i k s s' op x t h hcall hs := call_hidden h hcall hs
  drift k s s' t h hd := drift_kept h hd

variable {cfg serves names}

/-- Requests for other buckets and requests without a right, and what other buckets hold, have no
part in what is answered, stored and cached for these buckets: every run has a run of the
requests that concern them alone, on a storage that may differ elsewhere, with the same
answers, the same objects and the same totals. -/
theorem buckets_isolated {now : Time} {store store' : Str → β}
    (hstore : ∀ b ∈ buckets, store' b = store b) {c : Config Op Reply Arrival Answer (Stored β)}
    (hc : (storedSystem cfg serves names).Reachable ⟨{ now := now }, store⟩ c) :
    ∃ c', (storedSystem cfg serves names).Reachable ⟨{ now := now }, store'⟩ c' ∧
      (∀ i a p', c'.threads i = some (a, p') → Concerns cfg buckets a) ∧
      (∀ i a p, c.threads i = some (a, p) → Concerns cfg buckets a →
        ∃ p', c'.threads i = some (a, p') ∧ p'.result = p.result) ∧
      ∀ b ∈ buckets, c'.state.store b = c.state.store b ∧
        c'.state.world.cache.entries.lookup b = c.state.world.cache.entries.lookup b := by
  have hstart : StoredMatches buckets ⟨[]⟩ ⟨{ now := now }, store⟩ ⟨{ now := now }, store'⟩ :=
    ⟨cacheMatches_empty buckets, rfl, rfl, hstore⟩
  obtain ⟨k, c', hc', h⟩ := (restriction_of_buckets cfg buckets serves names).restrict hstart hc
  refine ⟨c', hc', ?_, ?_, ?_⟩
  · intro i a p' hi
    by_contra ha
    have hnone : c'.threads i = none := by
      apply h.gone i
      intro owner p howner hkept
      obtain ⟨p'', hp'', -⟩ := h.matched i owner p howner hkept
      rw [hi] at hp''
      obtain ⟨rfl, -⟩ := Prod.mk.inj (Option.some.inj hp'')
      exact ha hkept
    rw [hi] at hnone
    cases hnone
  · intro i a p hi ha
    obtain ⟨p', hp', hmatch⟩ := h.matched i a p hi ha
    exact ⟨p', hp', hmatch.result_eq.symm⟩
  · intro b hb
    exact ⟨h.state.store b hb, h.state.cache.entries b hb⟩

end

/-! ### Uploads to two buckets -/

/-- An upload of a user of these groups. -/
structure UploadsTo (groups : List Str) (bucket key : Str) (a : Arrival) : Prop where
  endpoint : a.endpoint = .putObject
  verifier : a.verifier = verifierFor groups
  token : extractToken a.request = (str "token", false)
  found : bucketAndKeyFromRequest a.request = (bucket, key)
  bucket_ne : bucket ≠ []
  key_ne : key ≠ []
  granted : checkAccess (groups.map stripLeadingSlash) bucket (str "PUT") = true

theorem UploadsTo.start {groups : List Str} {bucket key : Str} {a : Arrival}
    (h : UploadsTo groups bucket key a) :
    ∃ next, openAPI.handler a.verifier a.endpoint a.request =
        .call (.putObject (putObjectInput bucket key a.request)) next ∧
      next (.ok ()) = .done (writeJSON 200 (.status (str "uploaded") key)) := by
  rw [h.verifier, h.endpoint, handler_known rfl h.token]
  have hc := h.granted
  rw [← getGroups_known groups a.request] at hc
  have hfound : bucketAndKeyFromRequest (known groups a.request) = (bucket, key) := h.found
  exact handlePutObject_of_access hfound h.bucket_ne h.key_ne hc rfl

theorem UploadsTo.cleared {groups : List Str} {bucket key : Str} {a : Arrival}
    (h : UploadsTo groups bucket key a) : Cleared openAPI a bucket (str "PUT") := by
  have hgroups : openAPI.mapper.groups (claimsFor groups) = groups.map stripLeadingSlash :=
    groups_claimsFor groups
  refine ⟨claimsFor groups, ?_, ?_, ?_⟩
  · rw [h.token]
    decide
  · rw [h.token, h.verifier]
    exact if_pos rfl
  · rw [hgroups]
    exact h.granted

def uploadArrival : Arrival :=
  arrivalOf [str "reports-rw"] .putObject (str "PUT") (str "/api/v1/buckets/reports/objects/new")
    [(str "bucket", str "reports"), (str "key", str "new")]

theorem uploadsTo_uploadArrival :
    UploadsTo [str "reports-rw"] (str "reports") (str "new") uploadArrival :=
  ⟨rfl, rfl, by decide, by decide, by decide, by decide, by decide⟩

def archiveArrival : Arrival :=
  arrivalOf [str "archive-rw"] .putObject (str "PUT") (str "/api/v1/buckets/archive/objects/old")
    [(str "bucket", str "archive"), (str "key", str "old")]

theorem uploadsTo_archiveArrival :
    UploadsTo [str "archive-rw"] (str "archive") (str "old") archiveArrival :=
  ⟨rfl, rfl, by decide, by decide, by decide, by decide, by decide⟩

/-- A storage that counts the calls on each of its buckets. -/
abbrev countingSystem : System Op Reply Arrival Answer (Stored ℕ) :=
  storedSystem openAPI (fun _ n _ _ m => m = n + 1) fun _ _ _ => True

/-- A run in which the archive is written to while a report is uploaded. -/
theorem reachable_two_uploads :
    ∃ c, countingSystem.Reachable ⟨{ now := 0 }, fun _ => 0⟩ c ∧
      c.threads 0 = some (uploadArrival,
        .done (writeJSON 200 (.status (str "uploaded") (str "new")))) ∧
      c.state.store (str "reports") = 1 ∧ c.state.store (str "archive") = 1 := by
  obtain ⟨next, hupload, hnext⟩ := uploadsTo_uploadArrival.start
  obtain ⟨next', harchive, -⟩ := uploadsTo_archiveArrival.start
  have hstart : countingSystem.start uploadArrival = .call _ next := hupload
  have hstart' : countingSystem.start archiveArrival = .call _ next' := harchive
  have h₀ : countingSystem.Reachable ⟨{ now := 0 }, fun _ => 0⟩ (System.initial _) := .refl
  have h₁ := h₀.tail (.start 0 uploadArrival rfl)
  have h₂ := h₁.tail (.start 1 archiveArrival rfl)
  rw [hstart, hstart'] at h₂
  have h₃ := h₂.tail (.call 1 archiveArrival _ next' (.ok ()) _ rfl (.bucket rfl rfl))
  have h₄ := h₃.tail (.call 0 uploadArrival _ next (.ok ()) _ rfl (.bucket rfl rfl))
  rw [hnext] at h₄
  exact ⟨_, h₄, rfl, rfl, rfl⟩

theorem concerns_uploadArrival : Concerns openAPI {str "reports"} uploadArrival := by
  have hbucket : uploadArrival.bucket = str "reports" := by decide
  unfold Concerns
  rw [hbucket]
  exact .inr ⟨rfl, _, uploadsTo_uploadArrival.cleared⟩

/-- A report is uploaded in the same way when the other buckets differ and nobody writes to
them. -/
theorem buckets_isolated_reports :
    ∃ c', countingSystem.Reachable ⟨{ now := 0 }, fun b => if b = str "reports" then 0 else 7⟩ c' ∧
      (∃ p', c'.threads 0 = some (uploadArrival, p') ∧
        p'.result = some (writeJSON 200 (.status (str "uploaded") (str "new")))) ∧
      (∀ i p', c'.threads i ≠ some (archiveArrival, p')) ∧
      c'.state.store (str "reports") = 1 := by
  obtain ⟨c, hc, hthread, hreports, -⟩ := reachable_two_uploads
  have hstore : ∀ b ∈ ({str "reports"} : Set Str), (if b = str "reports" then 0 else 7) = 0 := by
    intro b hb
    rw [if_pos (Set.mem_singleton_iff.mp hb)]
  obtain ⟨c', hc', honly, hkept, hsame⟩ := buckets_isolated {str "reports"} hstore hc
  obtain ⟨p', hp', hresult⟩ := hkept 0 uploadArrival _ hthread concerns_uploadArrival
  refine ⟨c', hc', ⟨p', hp', hresult⟩, ?_, ?_⟩
  · intro i p' hi
    have hconcerns := honly i archiveArrival p' hi
    have hbucket : archiveArrival.bucket = str "archive" := by decide
    unfold Concerns at hconcerns
    rw [hbucket] at hconcerns
    rcases hconcerns with hnone | ⟨hmem, -⟩
    · exact absurd hnone (by decide)
    · exact absurd (Set.mem_singleton_iff.mp hmem) (by decide)
  · rw [(hsame (str "reports") rfl).1, hreports]

end PierGateway.WebUI
