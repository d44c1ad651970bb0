import PierGateway.Interaction

/-!
# Runs in which programs take effect at once

A program that makes one call at most takes effect at that call. So any run is as good as one in
which such a program, when it starts, goes on to its end before anything else happens: it is
served at the time of its call, with the same result, and the state is the same at all times. As
a program makes its call between its start and its end, one that ended before another started
is served before it. Programs that make more calls stay as they are.
-/
namespace PierGateway.Interaction

variable {Op : Type} {Reply : Op → Type} {Owner α σ : Type}

/-- A program of one call at most. -/
inductive Prog.Short : Prog Op Reply α → Prop
  | done (a : α) : Short (.done a)
  | call (op : Op) (next : Reply op → Prog Op Reply α) (h : ∀ x, ∃ a, next x = .done a) :
      Short (.call op next)

namespace System
variable (S : System Op Reply Owner α σ) (atomic : Owner → Prop)

/-- A thread's program run to its end, with nobody else at the state. -/
inductive Runs (i : ℕ) : σ → Prog Op Reply α → α → σ → Prop
  | done (s : σ) (a : α) : Runs i s (.done a) a s
  | call {s t u : σ} {op : Op} {next : Reply op → Prog Op Reply α} {x : Reply op} {a : α}
      (hs : S.handle i s op x t) (hnext : Runs i t (next x) a u) : Runs i s (.call op next) a u

/-- A step of a run in which the threads of these owners are served at once. -/
inductive AtomicStep : Config Op Reply Owner α σ → Config Op Reply Owner α σ → Prop
  | serve {c : Config Op Reply Owner α σ} (i : ℕ) (owner : Owner) {a : α} {s : σ}
      (howner : atomic owner)
      (hi : c.threads i = none) (hruns : S.Runs i c.state (S.start owner) a s) :
      AtomicStep c ⟨s, Function.update c.threads i (some (owner, .done a))⟩
  | start {c : Config Op Reply Owner α σ} (i : ℕ) (owner : Owner) (howner : ¬atomic owner)
      (hi : c.threads i = none) :
      AtomicStep c { c with threads := Function.update c.threads i (some (owner, S.start owner)) }
  | call {c : Config Op Reply Owner α σ} (i : ℕ) (owner : Owner) (op : Op)
      (next : Reply op → Prog Op Reply α) (x : Reply op) (s : σ) (howner : ¬atomic owner)
      (hi : c.threads i = some (owner, .call op next)) (hs : S.handle i c.state op x s) :
      AtomicStep c ⟨s, Function.update c.threads i (some (owner, next x))⟩
  | drift {c : Config Op Reply Owner α σ} (s : σ) (hs : S.drift c.state s) :
      AtomicStep c { c with state := s }

variable {S atomic}

theorem Runs.reachable {i : ℕ} {s t : σ} {p : Prog Op Reply α} {a : α} (h : S.Runs i s p a t)
    (owner : Owner)
    (threads : ℕ → Option (Owner × Prog Op Reply α)) (hi : threads i = some (owner, p)) :
    Relation.ReflTransGen S.Step ⟨s, threads⟩ ⟨t,
      Function.update threads i (some (owner, .done a))⟩ := by
  induction h generalizing threads with
  | done s a => rw [← hi, Function.update_eq_self]
  | @call s t u op next x a hs hnext ih =>
      have hfirst : S.Step ⟨s, threads⟩ ⟨t, Function.update threads i (some (owner, next x))⟩ :=
        .call i owner op next x t hi hs
      have hrest := ih (Function.update threads i (some (owner, next x))) (by simp)
      rw [Function.update_idem] at hrest
      exact (Relation.ReflTransGen.single hfirst).trans hrest

theorem AtomicStep.reachable {c d : Config Op Reply Owner α σ} (h : S.AtomicStep atomic c d) :
    Relation.ReflTransGen S.Step c d := by
  cases h with
  | serve i owner howner hi hruns =>
      have hstart : S.Step c
          { c with threads := Function.update c.threads i (some (owner, S.start owner)) } :=
        .start i owner hi
      have hrest :=
        hruns.reachable owner (Function.update c.threads i (some (owner, S.start owner))) (by simp)
      rw [Function.update_idem] at hrest
      exact (Relation.ReflTransGen.single hstart).trans hrest
  | start i owner howner hi => exact .single (.start i owner hi)
  | call i owner op next x s howner hi hs => exact .single (.call i owner op next x s hi hs)
  | drift s hs => exact .single (.drift s hs)

theorem reachable_of_atomic {c d : Config Op Reply Owner α σ}
    (h : Relation.ReflTransGen (S.AtomicStep atomic) c d) : Relation.ReflTransGen S.Step c d := by
  induction h with
  | refl => exact .refl
  | tail _ hstep ih => exact ih.trans hstep.reachable

variable (S atomic) in
/-- A thread and what there is of it in the other run: an atomic one is not there before its
call. -/
inductive Mirrors : Option (Owner × Prog Op Reply α) → Option (Owner × Prog Op Reply α) → Prop
  | absent : Mirrors none none
  | ended (owner : Owner) (a : α) : Mirrors (some (owner, .done a)) (some (owner, .done a))
  | waiting {owner : Owner} {op : Op} {next : Reply op → Prog Op Reply α} (howner : atomic owner)
      (hstart : S.start owner = .call op next) : Mirrors (some (owner, .call op next)) none
  | other {owner : Owner} (p : Prog Op Reply α) (howner : ¬atomic owner) :
      Mirrors (some (owner, p)) (some (owner, p))

variable (S atomic) in
/-- A configuration of the other run is as good: it has the same state and mirrors the threads. -/
structure AsGood (c c' : Config Op Reply Owner α σ) : Prop where
  state : c'.state = c.state
  threads : ∀ i, Mirrors S atomic (c.threads i) (c'.threads i)

theorem asGood_initial (s : σ) : AsGood S atomic (initial s) (initial s) := ⟨rfl, fun _ => .absent⟩

section
variable {c c' d : Config Op Reply Owner α σ}

theorem AsGood.update (h : AsGood S atomic c c') (i : ℕ) (s : σ)
    {thread thread' : Option (Owner × Prog Op Reply α)}
    (hthread : Mirrors S atomic thread thread') :
    AsGood S atomic ⟨s, Function.update c.threads i thread⟩ ⟨s,
      Function.update c'.threads i thread'⟩ := by
  constructor
  · rfl
  · intro j
    by_cases hij : j = i
    · subst hij
      simpa using hthread
    · simpa [hij] using h.threads j

theorem AsGood.result (h : AsGood S atomic c c') {i : ℕ} {owner : Owner} {a : α}
    (hi : c.threads i = some (owner, .done a)) : c'.threads i = some (owner, .done a) := by
  have hmirrors := h.threads i
  rw [hi] at hmirrors
  generalize hi' : c'.threads i = thread' at hmirrors
  cases hmirrors with
  | ended => rfl
  | other => rfl

theorem AsGood.absent (h : AsGood S atomic c c') {i : ℕ} (hi : c.threads i = none) :
    c'.threads i = none := by
  have hmirrors := h.threads i
  rw [hi] at hmirrors
  generalize hi' : c'.threads i = thread' at hmirrors
  cases hmirrors with
  | absent => rfl

/-- Each step is one of the other run or none, and the call of an atomic thread is all of it. -/
theorem AsGood.step (hshort : ∀ owner, atomic owner → (S.start owner).Short)
    (h : AsGood S atomic c c')
    (hstep : S.Step c d) :
    ∃ d', Relation.ReflTransGen (S.AtomicStep atomic) c' d' ∧ AsGood S atomic d d' := by
  cases hstep with
  | start i owner hi =>
      have hnone : c'.threads i = none := h.absent hi
      by_cases howner : atomic owner
      · cases hstart : S.start owner with
        | done a =>
            have hruns : S.Runs i c'.state (S.start owner) a c'.state := by
              rw [hstart]
              exact .done c'.state a
            refine ⟨_, .single (.serve i owner howner hnone hruns), ?_⟩
            rw [h.state]
            exact h.update i c.state (.ended owner a)
        | call op next =>
            have hwait := h.update i c.state (.waiting howner hstart)
            rw [← hnone, Function.update_eq_self, ← h.state] at hwait
            refine ⟨c', .refl, ?_⟩
            rw [← h.state]
            exact hwait
      · refine ⟨_, .single (.start i owner howner hnone), ?_⟩
        rw [h.state]
        exact h.update i c.state (.other (S.start owner) howner)
  | call i owner op next x s hi hs =>
      have hmirrors := h.threads i
      rw [hi] at hmirrors
      generalize hi' : c'.threads i = thread' at hmirrors
      cases hmirrors with
      | waiting howner hstart =>
          have howner' := hshort owner howner
          rw [hstart] at howner'
          cases howner' with
          | call _ _ hends =>
              obtain ⟨a, ha⟩ := hends x
              have hruns : S.Runs i c'.state (S.start owner) a s := by
                rw [hstart, h.state]
                refine .call hs ?_
                rw [ha]
                exact .done s a
              refine ⟨_, .single (.serve i owner howner hi' hruns), ?_⟩
              rw [ha]
              exact h.update i s (.ended owner a)
      | other _ howner =>
          refine ⟨_, .single (.call i owner op next x s howner hi' ?_),
            h.update i s (.other _ howner)⟩
          rw [h.state]
          exact hs
  | drift s hs =>
      refine ⟨{ c' with state := s }, .single (.drift s ?_), rfl, h.threads⟩
      rw [h.state]
      exact hs

/-- The rule: a run is as good as one in which the short programs are served at once, and the other
run goes on as the run does. -/
theorem AsGood.run (hshort : ∀ owner, atomic owner → (S.start owner).Short)
    (h : AsGood S atomic c c')
    (hrun : Relation.ReflTransGen S.Step c d) :
    ∃ d', Relation.ReflTransGen (S.AtomicStep atomic) c' d' ∧ AsGood S atomic d d' := by
  induction hrun with
  | refl => exact ⟨c', .refl, h⟩
  | tail _ hstep ih =>
      obtain ⟨b', hatomic, hb⟩ := ih
      obtain ⟨d', hatomic', hd⟩ := hb.step hshort hstep
      exact ⟨d', hatomic.trans hatomic', hd⟩

end

end System

end PierGateway.Interaction
