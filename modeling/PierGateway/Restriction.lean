import PierGateway.Interaction

/-!
# A run without some of its threads

A run is compared with one in which some of the threads never start. The two may give
different names to the same thing, so calls and replies correspond at a stage of what is
known about the names, and what is known only grows. Programs correspond when their calls
do and, whatever corresponding replies come later, the rests do. `Restriction.restrict` is
the rule: if each call of a thread that is left out keeps the two states related, and each
call of another can be made in the smaller run as well, then the smaller run has the same
results.
-/
namespace PierGateway.Interaction

/-- How the calls and the replies of the two runs correspond at a stage; what the threads that
are left out may call, and what they are told. -/
structure Matching (K Op : Type) (Reply : Op → Type) where
  calls : K → Op → Op → Prop
  replies : K → (op op' : Op) → Reply op → Reply op' → Prop
  hidden : K → Op → Prop
  told : K → (op : Op) → Reply op → Prop

namespace Prog
variable {K Op : Type} [Preorder K] {Reply : Op → Type} {α β : Type}

inductive Matches (M : Matching K Op Reply) : K → Prog Op Reply α → Prog Op Reply α → Prop
  | done (k : K) (a : α) : Matches M k (done a) (done a)
  | call {k : K} {op op' : Op} {next : Reply op → Prog Op Reply α}
      {next' : Reply op' → Prog Op Reply α}
      (hop : M.calls k op op')
      (hnext : ∀ l x x', k ≤ l → M.replies l op op' x x' → Matches M l (next x) (next' x')) :
      Matches M k (call op next) (call op' next')

/-- A program of a thread that is left out. -/
inductive Hidden (M : Matching K Op Reply) : K → Prog Op Reply α → Prop
  | done (k : K) (a : α) : Hidden M k (done a)
  | call {k : K} {op : Op} {next : Reply op → Prog Op Reply α} (hop : M.hidden k op)
      (hnext : ∀ l x, k ≤ l → M.told l op x → Hidden M l (next x)) : Hidden M k (call op next)

/-- What is safe in two ways is safe in both at once. -/
theorem Safe.both {allowed allowed' : Op → Prop} {promised promised' : ∀ op, Reply op → Prop}
    {right right' : α → Prop} {p : Prog Op Reply α} (h : p.Safe allowed promised right)
    (h' : p.Safe allowed' promised' right')
    (hp : ∀ op x, allowed' op → promised' op x → promised op x) :
    p.Safe (fun op => allowed op ∧ allowed' op) promised' fun a => right a ∧ right' a := by
  induction p with
  | done a => exact ⟨h, h'⟩
  | call op next ih =>
      refine ⟨⟨h.1, h'.1⟩, fun x hx => ?_⟩
      exact ih x (h.2 x (hp op x h'.1 hx)) (h'.2 x hx)

theorem safe_of_issues {allowed : Op → Prop} {promised : ∀ op, Reply op → Prop}
    {p : Prog Op Reply α}
    (h : ∀ op, p.Issues op → allowed op) : p.Safe allowed promised fun _ => True := by
  induction p with
  | done a => trivial
  | call op next ih =>
      exact ⟨h op (.here op next), fun x _ => ih x fun op' hop => h op' (.later x hop)⟩

section
variable {M : Matching K Op Reply} {k l : K}

theorem Matches.result_eq {p p' : Prog Op Reply α} (h : p.Matches M k p') :
    p.result = p'.result := by
  cases h with
  | done => rfl
  | call => rfl

theorem Matches.mono (hcalls : ∀ k l op op', k ≤ l → M.calls k op op' → M.calls l op op')
    (hl : k ≤ l)
    {p p' : Prog Op Reply α} (h : p.Matches M k p') : p.Matches M l p' := by
  cases h with
  | done a => exact .done l _
  | call hop hnext =>
      exact .call (hcalls k l _ _ hl hop) fun m x x' hm hx => hnext m x x' (hl.trans hm) hx

theorem Hidden.mono (hhidden : ∀ k l op, k ≤ l → M.hidden k op → M.hidden l op) (hl : k ≤ l)
    {p : Prog Op Reply α} (h : p.Hidden M k) : p.Hidden M l := by
  cases h with
  | done a => exact .done l _
  | call hop hnext => exact .call (hhidden k l _ hl hop) fun m x hm hx => hnext m x (hl.trans hm) hx

/-- Sequences correspond when their parts do. -/
theorem Matches.bind {p p' : Prog Op Reply α} {f f' : α → Prog Op Reply β} (h : p.Matches M k p')
    (hf : ∀ l a, k ≤ l → (f a).Matches M l (f' a)) : (p.bind f).Matches M k (p'.bind f') := by
  induction h with
  | done k a => exact hf k a le_rfl
  | call hop _ ih =>
      exact .call hop fun l x x' hl hx => ih l x x' hl hx fun m a hm => hf m a (hl.trans hm)

theorem Hidden.bind {p : Prog Op Reply α} {f : α → Prog Op Reply β} (h : p.Hidden M k)
    (hf : ∀ l a, k ≤ l → (f a).Hidden M l) : (p.bind f).Hidden M k := by
  induction h with
  | done k a => exact hf k a le_rfl
  | call hop _ ih =>
      exact .call hop fun l x hl hx => ih l x hl hx fun m a hm => hf m a (hl.trans hm)

/-- A program whose calls and replies are the same in both runs. -/
theorem matches_of_safe {right : α → Prop} {p : Prog Op Reply α}
    (h : p.Safe (fun op => (∀ l, M.calls l op op) ∧ ∀ l x x', M.replies l op op x x' → x = x')
      (fun _ _ => True) right) (k : K) : p.Matches M k p := by
  induction p generalizing k with
  | done a => exact .done k a
  | call op next ih =>
      refine .call (h.1.1 k) fun l x x' _ hx => ?_
      obtain rfl := h.1.2 l x x' hx
      exact ih x (h.2 x trivial) l

theorem hidden_of_safe {right : α → Prop} {p : Prog Op Reply α}
    (h : p.Safe (fun op => ∀ l, M.hidden l op) (fun _ _ => True) right) (k : K) : p.Hidden M k := by
  induction p generalizing k with
  | done a => exact .done k a
  | call op next ih => exact .call (h.1 k) fun l x _ _ => ih x (h.2 x trivial) l

end

end Prog

variable {K Op : Type} [Preorder K] {Reply : Op → Type} {Owner α σ : Type}

/-- What it takes to leave the threads of some owners out of the runs of a system. -/
structure Restriction (S : System Op Reply Owner α σ) (M : Matching K Op Reply)
    (kept : Owner → Prop)
    (R : K → σ → σ → Prop) : Prop where
  calls_mono : ∀ k l op op', k ≤ l → M.calls k op op' → M.calls l op op'
  hidden_mono : ∀ k l op, k ≤ l → M.hidden k op → M.hidden l op
  start_kept : ∀ k owner, kept owner → (S.start owner).Matches M k (S.start owner)
  start_hidden : ∀ k owner, ¬kept owner → (S.start owner).Hidden M k
  call_kept : ∀ i k s s' op op' x t, R k s s' → M.calls k op op' → S.handle i s op x t →
    ∃ l x' t', k ≤ l ∧ S.handle i s' op' x' t' ∧ M.replies l op op' x x' ∧ R l t t'
  call_hidden : ∀ i k s s' op x t, R k s s' → M.hidden k op → S.handle i s op x t →
    ∃ l, k ≤ l ∧ M.told l op x ∧ R l t s'
  drift : ∀ k s s' t, R k s s' → S.drift s t → ∃ t', S.drift s' t' ∧ R k t t'

/-- A configuration and what is left of it: related states, the kept threads, and no others. -/
structure Restricts (M : Matching K Op Reply) (kept : Owner → Prop) (R : K → σ → σ → Prop) (k : K)
    (c c' : Config Op Reply Owner α σ) : Prop where
  state : R k c.state c'.state
  matched : ∀ i owner p, c.threads i = some (owner, p) → kept owner →
    ∃ p', c'.threads i = some (owner, p') ∧ p.Matches M k p'
  left : ∀ i owner p, c.threads i = some (owner, p) → ¬kept owner → p.Hidden M k
  gone : ∀ i, (∀ owner p, c.threads i = some (owner, p) → ¬kept owner) → c'.threads i = none

section
variable {S : System Op Reply Owner α σ} {M : Matching K Op Reply} {kept : Owner → Prop}
  {R : K → σ → σ → Prop} {k l : K} {c c' : Config Op Reply Owner α σ}

theorem Restricts.keep (hS : Restriction S M kept R) (h : Restricts M kept R k c c') (hl : k ≤ l)
    {s s' : σ}
    (hs : R l s s') (i : ℕ) {owner : Owner} (howner : kept owner) {p p' : Prog Op Reply α}
    (hp : p.Matches M l p') :
    Restricts M kept R l ⟨s, Function.update c.threads i (some (owner, p))⟩
      ⟨s', Function.update c'.threads i (some (owner, p'))⟩ := by
  constructor
  · exact hs
  · intro j owner' q hj howner'
    by_cases hij : j = i
    · have hself : some (owner, p) = some (owner', q) := by simpa [hij] using hj
      obtain ⟨rfl, rfl⟩ := Prod.mk.inj (Option.some.inj hself)
      exact ⟨p', by simp [hij], hp⟩
    · obtain ⟨q', hq', hmatch⟩ := h.matched j owner' q (by simpa [hij] using hj) howner'
      exact ⟨q', by simpa [hij] using hq', hmatch.mono hS.calls_mono hl⟩
  · intro j owner' q hj howner'
    by_cases hij : j = i
    · have hself : some (owner, p) = some (owner', q) := by simpa [hij] using hj
      obtain ⟨rfl, -⟩ := Prod.mk.inj (Option.some.inj hself)
      exact absurd howner howner'
    · exact (h.left j owner' q (by simpa [hij] using hj) howner').mono hS.hidden_mono hl
  · intro j hj
    by_cases hij : j = i
    · exact absurd howner (hj owner p (by simp [hij]))
    · simpa [hij] using h.gone j fun owner' q hq => hj owner' q (by simpa [hij] using hq)

theorem Restricts.skip (hS : Restriction S M kept R) (h : Restricts M kept R k c c') (hl : k ≤ l)
    {s : σ}
    (hs : R l s c'.state) (i : ℕ) {owner : Owner} (howner : ¬kept owner)
    (hi : c'.threads i = none) {p : Prog Op Reply α} (hp : p.Hidden M l) :
    Restricts M kept R l ⟨s, Function.update c.threads i (some (owner, p))⟩ c' := by
  constructor
  · exact hs
  · intro j owner' q hj howner'
    by_cases hij : j = i
    · have hself : some (owner, p) = some (owner', q) := by simpa [hij] using hj
      obtain ⟨rfl, -⟩ := Prod.mk.inj (Option.some.inj hself)
      exact absurd howner' howner
    · obtain ⟨q', hq', hmatch⟩ := h.matched j owner' q (by simpa [hij] using hj) howner'
      exact ⟨q', hq', hmatch.mono hS.calls_mono hl⟩
  · intro j owner' q hj howner'
    by_cases hij : j = i
    · have hself : some (owner, p) = some (owner', q) := by simpa [hij] using hj
      obtain ⟨-, rfl⟩ := Prod.mk.inj (Option.some.inj hself)
      exact hp
    · exact (h.left j owner' q (by simpa [hij] using hj) howner').mono hS.hidden_mono hl
  · intro j hj
    by_cases hij : j = i
    · rw [hij, hi]
    · exact h.gone j fun owner' q hq => hj owner' q (by simpa [hij] using hq)

/-- Each step of the run is a step of what is left of it, or none. -/
theorem Restricts.step (hS : Restriction S M kept R) (h : Restricts M kept R k c c')
    {d : Config Op Reply Owner α σ} (hstep : S.Step c d) :
    ∃ l d', k ≤ l ∧ Relation.ReflTransGen S.Step c' d' ∧ Restricts M kept R l d d' := by
  cases hstep with
  | start i owner hi =>
      have hnone : c'.threads i = none := by
        apply h.gone i
        intro owner' p hp
        rw [hi] at hp
        cases hp
      by_cases howner : kept owner
      · have hstart := hS.start_kept k owner howner
        exact ⟨k, _, le_rfl, .single (.start i owner hnone),
          h.keep hS le_rfl h.state i howner hstart⟩
      · have hstart := hS.start_hidden k owner howner
        exact ⟨k, c', le_rfl, .refl, h.skip hS le_rfl h.state i howner hnone hstart⟩
  | call i owner op next x s hi hs =>
      by_cases howner : kept owner
      · obtain ⟨p', hi', hmatch⟩ := h.matched i owner _ hi howner
        cases hmatch with
        | @call _ _ op' _ next' hop hnext =>
            obtain ⟨l, x', s', hl, hs', hx, hR⟩ := hS.call_kept i k _ _ _ _ _ _ h.state hop hs
            exact ⟨l, _, hl, .single (.call i owner op' next' x' s' hi' hs'),
              h.keep hS hl hR i howner (hnext l x x' hl hx)⟩
      · have hnone : c'.threads i = none := by
          apply h.gone i
          intro owner' p hp
          rw [hi] at hp
          obtain ⟨rfl, -⟩ := Prod.mk.inj (Option.some.inj hp)
          exact howner
        cases h.left i owner _ hi howner with
        | call hop hnext =>
            obtain ⟨l, hl, hx, hR⟩ := hS.call_hidden i k _ _ _ _ _ h.state hop hs
            exact ⟨l, c', hl, .refl, h.skip hS hl hR i howner hnone (hnext l x hl hx)⟩
  | drift s hs =>
      obtain ⟨s', hs', hR⟩ := hS.drift k _ _ _ h.state hs
      exact ⟨k, _, le_rfl, .single (.drift s' hs'), ⟨hR, h.matched, h.left, h.gone⟩⟩

/-- The rule: every run has a run of the kept threads alone, with the same results. -/
theorem Restriction.restrict (hS : Restriction S M kept R) {s s' : σ} (hs : R k s s')
    (hc : S.Reachable s c) :
    ∃ l c', S.Reachable s' c' ∧ Restricts M kept R l c c' := by
  induction hc with
  | refl =>
      refine ⟨k, System.initial s', .refl, hs, ?_, ?_, fun _ _ => rfl⟩
      · intro i owner p hi
        cases hi
      · intro i owner p hi
        cases hi
  | tail _ hstep ih =>
      obtain ⟨l, c', hc', h⟩ := ih
      obtain ⟨m, d', -, hsteps, hrest⟩ := h.step hS hstep
      exact ⟨m, d', hc'.trans hsteps, hrest⟩

end

end PierGateway.Interaction
