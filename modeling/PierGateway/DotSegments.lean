import PierGateway.GoStrings

/-!
# Resolving dot segments

Removing `.` and `..` from a path is a walk with a stack: a name is pushed, `..`
pops. The first half is about such walks over any segments; what stands at the
bottom of the stack in the end is decided by counting names and pops before and
after it. The second half has the two uses of the walk: the removal of dot
segments from the path of a URL and the cleaning of a slash-separated path, which
differ in what they make of empty segments and of the end of the path.
-/
namespace PierGateway.DotSegments
open GoStrings

inductive Kind where
  | name | here | up
deriving DecidableEq

section Walk

variable {α : Type*} (kind : α → Kind)

/-- One segment; the top of the stack is the head of the list. -/
def step (stack : List α) (s : α) : List α :=
  match kind s with
  | .name => s :: stack
  | .here => stack
  | .up => stack.tail

def walk (stack : List α) (l : List α) : List α := l.foldl (step kind) stack

/-- What is left of a list of segments. -/
def resolve (l : List α) : List α := (walk kind [] l).reverse

def names (l : List α) : ℕ := l.countP fun s => kind s = .name
def ups (l : List α) : ℕ := l.countP fun s => kind s = .up

/-- No prefix pops more than it has pushed, with `n` segments to spare. -/
def Stays (n : ℕ) (l : List α) : Prop := ∀ p, p <+: l → ups kind p ≤ names kind p + n

/-- All names are popped again, up to `n` of them. -/
def Cancels (n : ℕ) (l : List α) : Prop := ∀ s, s <:+ l → names kind s ≤ ups kind s + n

variable {kind}

theorem walk_append (stack l l' : List α) :
    walk kind stack (l ++ l') = walk kind (walk kind stack l) l' :=
  List.foldl_append

theorem names_append (l l' : List α) : names kind (l ++ l') = names kind l + names kind l' :=
  List.countP_append

theorem ups_append (l l' : List α) : ups kind (l ++ l') = ups kind l + ups kind l' :=
  List.countP_append

theorem counts_singleton (kind : α → Kind) (s : α) :
    (kind s = .name ∧ names kind [s] = 1 ∧ ups kind [s] = 0) ∨
      (kind s = .here ∧ names kind [s] = 0 ∧ ups kind [s] = 0) ∨
      (kind s = .up ∧ names kind [s] = 0 ∧ ups kind [s] = 1) := by
  unfold names ups
  cases h : kind s with
  | name => simp [h]
  | here => simp [h]
  | up => simp [h]

theorem Stays.of_append {n : ℕ} {l l' : List α} (h : Stays kind n (l ++ l')) : Stays kind n l :=
  fun p hp => h p (hp.trans (List.prefix_append l l'))

theorem stays_append_singleton {n : ℕ} {l : List α} {s : α} :
    Stays kind n (l ++ [s]) ↔
      Stays kind n l ∧ ups kind (l ++ [s]) ≤ names kind (l ++ [s]) + n := by
  constructor
  · intro h
    exact ⟨h.of_append, h _ (List.prefix_refl _)⟩
  · rintro ⟨h, hs⟩ p hp
    rcases List.prefix_concat_iff.mp (by simpa using hp) with rfl | hp
    · simpa using hs
    · exact h p hp

theorem cancels_append_singleton {n : ℕ} {l : List α} {s : α} :
    Cancels kind n (l ++ [s]) ↔
      ∀ t, t <:+ l → names kind t + names kind [s] ≤ ups kind t + ups kind [s] + n := by
  constructor
  · rintro h t ⟨u, rfl⟩
    have ht := h (t ++ [s]) ⟨u, by simp⟩
    rwa [names_append, ups_append] at ht
  · intro h t ht
    rcases List.eq_nil_or_concat t with rfl | ⟨t', x, rfl⟩
    · simp [names]
    · rw [List.concat_eq_append] at ht ⊢
      obtain ⟨u, hu⟩ := ht
      rw [← List.append_assoc] at hu
      obtain ⟨rfl, hx⟩ := List.append_inj' hu rfl
      obtain rfl : x = s := by simpa using hx
      rw [names_append, ups_append]
      exact h t' ⟨u, rfl⟩

/-- The stack is at most `n` high at the end exactly when all but `n` names cancel. -/
theorem length_walk_le_iff (n : ℕ) (l : List α) :
    (walk kind [] l).length ≤ n ↔ Cancels kind n l := by
  induction l using List.reverseRecOn generalizing n with
  | nil =>
      constructor
      · intro _ s hs
        rw [List.suffix_nil.mp hs]
        simp [names]
      · intro _
        exact Nat.zero_le n
  | append_singleton l s ih =>
      have hwalk : walk kind [] (l ++ [s]) = step kind (walk kind [] l) s := walk_append _ _ _
      rw [hwalk, cancels_append_singleton]
      rcases counts_singleton kind s with ⟨hk, hn, hu⟩ | ⟨hk, hn, hu⟩ | ⟨hk, hn, hu⟩
      · -- a name: one segment fewer may be left of what comes before
        rw [step, hk, hn, hu]
        simp only [List.length_cons]
        constructor
        · intro h t ht
          have hc := (ih (n - 1)).mp (by omega) t ht
          omega
        · intro h
          have hone := h [] (List.nil_suffix)
          have hzero : names kind ([] : List α) = 0 ∧ ups kind ([] : List α) = 0 := ⟨rfl, rfl⟩
          have hc := (ih (n - 1)).mpr fun t ht => by
            have := h t ht
            omega
          omega
      · rw [step, hk, hn, hu]
        exact ih n
      · rw [step, hk, hn, hu]
        simp only [List.length_tail]
        have hc := ih (n + 1)
        constructor
        · intro h t ht
          have := hc.mp (by omega) t ht
          omega
        · intro h
          have := hc.mpr fun t ht => by
            have := h t ht
            omega
          omega

theorem walk_eq_nil_iff (l : List α) : walk kind [] l = [] ↔ Cancels kind 0 l := by
  rw [← length_walk_le_iff]
  simp

/-- A walk that never reaches below its own segments leaves the stack under it alone. -/
theorem walk_stays {l : List α} (stack base : List α) (h : Stays kind stack.length l) :
    walk kind (stack ++ base) l = walk kind stack l ++ base := by
  induction l generalizing stack with
  | nil => rfl
  | cons s l ih =>
      have hstep : ∀ st, walk kind st (s :: l) = walk kind (step kind st s) l := fun _ => rfl
      have hone := h [s] ⟨l, rfl⟩
      have hrest : ∀ m, (∀ p, p <+: l → ups kind [s] + ups kind p ≤
          names kind [s] + names kind p + stack.length → ups kind p ≤ names kind p + m) →
          Stays kind m l := by
        rintro m hm p hp
        obtain ⟨t, rfl⟩ := hp
        have hs := h (s :: p) ⟨t, rfl⟩
        have hcons : s :: p = [s] ++ p := rfl
        rw [hcons, names_append, ups_append] at hs
        exact hm p ⟨t, rfl⟩ hs
      rw [hstep, hstep]
      rcases counts_singleton kind s with ⟨hk, hn, hu⟩ | ⟨hk, hn, hu⟩ | ⟨hk, hn, hu⟩
      · have hname : ∀ st, step kind st s = s :: st := by
          intro st
          rw [step, hk]
        rw [hname, hname]
        apply ih (s :: stack)
        apply hrest
        intro p _ hp
        simp only [List.length_cons]
        omega
      · have hhere : ∀ st, step kind st s = st := by
          intro st
          rw [step, hk]
        rw [hhere, hhere]
        apply ih stack
        apply hrest
        intro p _ hp
        omega
      · have hup : ∀ st, step kind st s = st.tail := by
          intro st
          rw [step, hk]
        rw [hup, hup]
        cases stack with
        | nil =>
            simp only [List.length_nil] at hone
            omega
        | cons x stack =>
            apply ih stack
            apply hrest
            intro p _ hp
            simp only [List.length_cons] at hp
            omega

theorem length_walk_of_stays {l : List α} (h : Stays kind 0 l) :
    (walk kind [] l).length + ups kind l = names kind l := by
  induction l using List.reverseRecOn with
  | nil => rfl
  | append_singleton l s ih =>
      have hwalk : walk kind [] (l ++ [s]) = step kind (walk kind [] l) s := walk_append _ _ _
      have hl := ih h.of_append
      have hs := (stays_append_singleton.mp h).2
      rw [hwalk, names_append, ups_append] at *
      rcases counts_singleton kind s with ⟨hk, hn, hu⟩ | ⟨hk, hn, hu⟩ | ⟨hk, hn, hu⟩
      · rw [step, hk, hn, hu]
        simp only [List.length_cons]
        omega
      · rw [step, hk, hn, hu]
        exact hl
      · rw [step, hk, hn, hu]
        simp only [List.length_tail]
        omega

/-- A name that nothing before it outlives and nothing after it pops is the bottom. -/
theorem walk_bottom {b : α} {pre post : List α} (hb : kind b = .name) (hpre : Cancels kind 0 pre)
    (hpost : Stays kind 0 post) :
    walk kind [] (pre ++ b :: post) = walk kind [] post ++ [b] := by
  have hfirst : walk kind [] (pre ++ b :: post) = walk kind (step kind [] b) post := by
    rw [walk_append, (walk_eq_nil_iff pre).mpr hpre]
    rfl
  have hpush : step kind [] b = [] ++ [b] := by
    rw [step, hb]
    rfl
  rw [hfirst, hpush]
  exact walk_stays [] [b] hpost

/-- One more segment stays above the ground, unless it pops an empty stack. -/
theorem Stays.concat {l : List α} {s : α} (h : Stays kind 0 l)
    (hup : kind s = .up → walk kind [] l ≠ []) : Stays kind 0 (l ++ [s]) := by
  have hlen := length_walk_of_stays h
  refine stays_append_singleton.mpr ⟨h, ?_⟩
  rw [names_append, ups_append]
  rcases counts_singleton kind s with ⟨hk, hn, hu⟩ | ⟨hk, hn, hu⟩ | ⟨hk, hn, hu⟩
  · omega
  · omega
  · have hpos := List.length_pos_of_ne_nil (hup hk)
    omega

/-- What a bottom was before the last step: nothing, if it has just been pushed, or already the
bottom, with something on it if the step popped. -/
theorem step_eq_concat {stack above : List α} {s b : α} (h : step kind stack s = above ++ [b]) :
    (stack = [] ∧ above = [] ∧ s = b ∧ kind s = .name) ∨
      ∃ above', stack = above' ++ [b] ∧ (kind s = .up → above' ≠ []) := by
  unfold step at h
  cases hk : kind s with
  | name =>
      rw [hk] at h
      cases above with
      | nil =>
          obtain ⟨rfl, hstack⟩ := List.cons.inj h
          exact .inl ⟨hstack, rfl, rfl, rfl⟩
      | cons x above =>
          refine .inr ⟨above, (List.cons.inj h).2, ?_⟩
          intro hup
          cases hup
  | here =>
      rw [hk] at h
      refine .inr ⟨above, h, ?_⟩
      intro hup
      cases hup
  | up =>
      rw [hk] at h
      cases stack with
      | nil => simp at h
      | cons top stack =>
          exact .inr ⟨top :: above, congrArg (top :: ·) h, fun _ => List.cons_ne_nil _ _⟩

/-- The segment at the bottom of the final stack: everything before it cancels, and
nothing after it pops as far as it. -/
theorem resolve_eq_cons_iff {l rest : List α} {b : α} :
    resolve kind l = b :: rest ↔
      ∃ pre post, l = pre ++ b :: post ∧ kind b = .name ∧ Cancels kind 0 pre ∧
        Stays kind 0 post ∧ resolve kind post = rest := by
  constructor
  · intro h
    have hwalk : walk kind [] l = rest.reverse ++ [b] := by
      rw [resolve, List.reverse_eq_iff] at h
      simpa using h
    clear h
    induction l using List.reverseRecOn generalizing rest with
    | nil =>
        have hlen := congrArg List.length hwalk
        simp [walk] at hlen
    | append_singleton l s ih =>
        have hlast : walk kind [] (l ++ [s]) = step kind (walk kind [] l) s := walk_append _ _ _
        rcases step_eq_concat (hlast.symm.trans hwalk) with
          ⟨hnil, habove, rfl, hk⟩ | ⟨above, hl, hup⟩
        · -- the name just pushed is the bottom itself
          obtain rfl : rest = [] := by simpa using habove
          refine ⟨l, [], rfl, hk, (walk_eq_nil_iff l).mp hnil, ?_, rfl⟩
          intro p hp
          rw [List.prefix_nil.mp hp]
          simp [ups]
        · have hl' : walk kind [] l = above.reverse.reverse ++ [b] := by
            rw [List.reverse_reverse]
            exact hl
          obtain ⟨pre, post, rfl, hb, hpre, hpost, hrest⟩ := ih hl'
          have hpostWalk : walk kind [] post = above := List.reverse_injective hrest
          have hstays : Stays kind 0 (post ++ [s]) := by
            refine hpost.concat ?_
            rw [hpostWalk]
            exact hup
          refine ⟨pre, post ++ [s], by simp, hb, hpre, hstays, ?_⟩
          -- the whole walk ends in the one from the bottom on, with the bottom under it
          have hbottom := walk_bottom hb hpre hstays
          rw [← List.cons_append, ← List.append_assoc, hwalk] at hbottom
          rw [resolve, ← List.append_cancel_right hbottom, List.reverse_reverse]
  · rintro ⟨pre, post, rfl, hb, hpre, hpost, rfl⟩
    rw [resolve, walk_bottom hb hpre hpost, List.reverse_append]
    rfl

theorem resolve_eq_nil_iff (l : List α) : resolve kind l = [] ↔ Cancels kind 0 l := by
  rw [resolve, List.reverse_eq_nil_iff, walk_eq_nil_iff]

theorem mem_walk {stack l : List α} {s : α} (h : s ∈ walk kind stack l) :
    s ∈ stack ∨ s ∈ l ∧ kind s = .name := by
  induction l generalizing stack with
  | nil => exact .inl h
  | cons x l ih =>
      have hstep : s ∈ step kind stack x → s ∈ stack ∨ s ∈ x :: l ∧ kind s = .name := by
        unfold step
        cases hx : kind x with
        | name =>
            intro hs
            rcases List.mem_cons.mp hs with rfl | hs
            · exact .inr ⟨List.mem_cons_self, hx⟩
            · exact .inl hs
        | here => exact .inl
        | up =>
            intro hs
            exact .inl (List.mem_of_mem_tail hs)
      rcases ih h with hs | hs
      · exact hstep hs
      · exact .inr ⟨List.mem_cons_of_mem _ hs.1, hs.2⟩

theorem mem_resolve {l : List α} {s : α} (h : s ∈ resolve kind l) : s ∈ l ∧ kind s = .name := by
  have hs := mem_walk (List.mem_reverse.mp h)
  exact hs.resolve_left List.not_mem_nil

theorem resolve_append_name {l : List α} {s : α} (hs : kind s = .name) :
    resolve kind (l ++ [s]) = resolve kind l ++ [s] := by
  rw [resolve, walk_append]
  simp [walk, step, hs, resolve]

theorem resolve_append_here {l : List α} {s : α} (hs : kind s = .here) :
    resolve kind (l ++ [s]) = resolve kind l := by
  rw [resolve, walk_append]
  simp only [walk, List.foldl_cons, List.foldl_nil, step, hs, resolve]

theorem resolve_of_names {l : List α} (h : ∀ s ∈ l, kind s = .name) : resolve kind l = l := by
  induction l using List.reverseRecOn with
  | nil => rfl
  | append_singleton l s ih =>
      rw [resolve_append_name (h s (by simp)), ih fun x hx => h x (by simp [hx])]

end Walk

/-! ### Paths -/

/-- The segments of a path, the slash in front of it not counted. -/
def segments (p : Str) : List Str := split slash (trimPrefix [slash] p)

def dotKind (s : Str) : Kind :=
  if s = [dot] then .here else if s = [dot, dot] then .up else .name

/-- A path that ends in a dot segment ends in a slash when that is removed. -/
def trailing (segs : List Str) : List Str :=
  if ∃ s ∈ segs.getLast?, dotKind s ≠ .name then [[]] else []

/-- The removal of dot segments from an absolute path (RFC 3986, section 5.2.4). -/
def removeDotSegments (p : Str) : Str :=
  if p.head? = some slash then
    slash :: join slash (resolve dotKind (segments p) ++ trailing (segments p))
  else p

/-- `path.Clean` drops empty segments too. -/
def cleanKind (s : Str) : Kind := if s = [] then .here else dotKind s

/-- The cleaning of a request path: rooted, without empty and dot segments, with the slash
at its end if it had one. -/
def cleanPath (p : Str) : Str :=
  if p = [] then [slash]
  else
    let rooted := if p.head? = some slash then p else slash :: p
    let np := slash :: join slash (resolve cleanKind (segments rooted))
    if rooted.getLast? = some slash ∧ np ≠ [slash] then np ++ [slash] else np

theorem segments_cons_slash (t : Str) : segments (slash :: t) = split slash t := by
  simp [segments, trimPrefix]

theorem segments_ne_nil (p : Str) : segments p ≠ [] := split_ne_nil slash _

theorem not_mem_of_mem_segments {p s : Str} (h : s ∈ segments p) : slash ∉ s :=
  not_mem_of_mem_split h

theorem segments_join {segs : List Str} (hne : segs ≠ []) (h : ∀ s ∈ segs, slash ∉ s) :
    segments (slash :: join slash segs) = segs := by
  rw [segments_cons_slash, split_join slash hne h]

theorem trailing_cases (segs : List Str) :
    (trailing segs = [[]] ∧ ∃ l s, segs = l ++ [s] ∧ dotKind s ≠ .name) ∨
      (trailing segs = [] ∧ (segs = [] ∨ ∃ l s, segs = l ++ [s] ∧ dotKind s = .name)) := by
  rcases List.eq_nil_or_concat segs with rfl | ⟨l, s, rfl⟩
  · right
    simp [trailing]
  · rw [List.concat_eq_append]
    have hlast : (l ++ [s]).getLast? = some s := List.getLast?_concat
    unfold trailing
    rw [hlast]
    by_cases hs : dotKind s = .name
    · right
      simp [hs]
    · left
      simp [hs]

theorem resolve_append_trailing_ne_nil {segs : List Str} (hne : segs ≠ []) :
    resolve dotKind segs ++ trailing segs ≠ [] := by
  rcases trailing_cases segs with ⟨ht, -⟩ | ⟨-, rfl | ⟨l, s, rfl, hs⟩⟩
  · simp [ht]
  · exact absurd rfl hne
  · rw [resolve_append_name hs]
    simp

theorem segments_removeDotSegments {p : Str} (hp : p.head? = some slash) :
    segments (removeDotSegments p) =
      resolve dotKind (segments p) ++ trailing (segments p) := by
  rw [removeDotSegments, if_pos hp]
  apply segments_join (resolve_append_trailing_ne_nil (segments_ne_nil p))
  intro s hs
  rcases List.mem_append.mp hs with hs | hs
  · exact not_mem_of_mem_segments (mem_resolve hs).1
  · unfold trailing at hs
    split_ifs at hs
    · obtain rfl : s = [] := by simpa using hs
      exact List.not_mem_nil
    · exact absurd hs List.not_mem_nil

example : removeDotSegments (str "/a/./b/../c/..") = str "/a/" := by decide

/-- Something is left of these segments besides a final slash. -/
def Remains (post : List Str) : Prop :=
  ¬Cancels dotKind 0 post ∧ ¬∃ p, post = p ++ [[]] ∧ Cancels dotKind 0 p

theorem dotKind_nil : dotKind [] = .name := by decide

/-- The last segment decides, and a name in front of the others leaves it the last. -/
theorem trailing_append_name {b : Str} (hb : dotKind b = .name) (pre post : List Str) :
    trailing (pre ++ b :: post) = trailing post := by
  rcases List.eq_nil_or_concat post with rfl | ⟨l, s, rfl⟩
  · have hlast : (pre ++ [b]).getLast? = some b := List.getLast?_concat
    simp [trailing, hlast, hb]
  · have hwhole : pre ++ b :: l.concat s = (pre ++ b :: l) ++ [s] := by simp
    unfold trailing
    rw [hwhole, List.concat_eq_append, List.getLast?_concat, List.getLast?_concat]

/-- What follows the first segment is empty, or a final slash, exactly when nothing remains. -/
theorem rest_eq_nil_iff {pre post : List Str} {b : Str} (hb : dotKind b = .name) :
    (resolve dotKind post ++ trailing (pre ++ b :: post) = [] ∨
        resolve dotKind post ++ trailing (pre ++ b :: post) = [[]]) ↔ ¬Remains post := by
  have hcancel : resolve dotKind post = [] ↔ Cancels dotKind 0 post := resolve_eq_nil_iff post
  unfold Remains
  rw [not_and_or, not_not, not_not, ← hcancel, trailing_append_name hb]
  rcases trailing_cases post with ⟨ht, l, s, rfl, hk⟩ | ⟨ht, hpost⟩
  · rw [ht]
    constructor
    · rintro (h | h)
      · simp at h
      · exact .inl (by simpa using h)
    · rintro (h | ⟨p, hp, -⟩)
      · exact .inr (by simp [h])
      · have hs := (List.append_inj' hp rfl).2
        obtain rfl : s = [] := by simpa using hs
        exact absurd dotKind_nil hk
  · rw [ht, List.append_nil]
    constructor
    · rintro (h | h)
      · exact .inl h
      · rcases hpost with rfl | ⟨l, s, rfl, hk⟩
        · exact .inl rfl
        · rw [resolve_append_name hk] at h
          have hsplit : resolve dotKind l ++ [s] = [] ++ [[]] := h
          obtain ⟨hl, hs⟩ := List.append_inj' hsplit rfl
          obtain rfl : s = [] := by simpa using hs
          exact .inr ⟨l, rfl, (resolve_eq_nil_iff l).mp hl⟩
    · rintro (h | ⟨p, rfl, hp⟩)
      · exact .inl h
      · right
        rw [resolve_append_name dotKind_nil, (resolve_eq_nil_iff p).mpr hp]
        rfl

end PierGateway.DotSegments
