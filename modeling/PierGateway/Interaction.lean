import Mathlib.Logic.Relation
import Mathlib.Tactic

/-!
# Programs that interact with a shared state

A program is a tree: it ends with a result, or it makes a call and goes on with
the reply. `Safe` bounds what a program may call and return when the replies keep
a promise of their own, and it composes along `bind`. A system runs any number of
such programs over one state, one call at a time in any order, and lets the state
drift between calls. `System.guarantee` is the rule that lifts what each program
does alone to every interleaving.
-/
namespace PierGateway.Interaction

/-- A program over the calls `Op`, each with its own type of replies. -/
inductive Prog (Op : Type) (Reply : Op → Type) (α : Type) where
  | done (a : α)
  | call (op : Op) (next : Reply op → Prog Op Reply α)

namespace Prog
variable {Op : Type} {Reply : Op → Type} {α β : Type}

def bind : Prog Op Reply α → (α → Prog Op Reply β) → Prog Op Reply β
  | done a, f => f a
  | call op next, f => call op fun x => (next x).bind f

@[simp] theorem bind_done (a : α) (f : α → Prog Op Reply β) : (done a).bind f = f a := rfl

@[simp] theorem bind_call (op : Op) (next : Reply op → Prog Op Reply α) (f : α → Prog Op Reply β) :
    (call op next).bind f = call op fun x => (next x).bind f := rfl

/-- The call a program stands at. -/
def nextCall : Prog Op Reply α → Option Op
  | done _ => none
  | call op _ => some op

/-- The result of a program that has ended. -/
def result : Prog Op Reply α → Option α
  | done a => some a
  | call _ _ => none

/-- The result of a program whose calls are answered by a function. -/
def eval (reply : ∀ op, Reply op) : Prog Op Reply α → α
  | done a => a
  | call op next => (next (reply op)).eval reply

@[simp] theorem eval_done (reply : ∀ op, Reply op) (a : α) : (done a).eval reply = a := rfl

theorem eval_bind (reply : ∀ op, Reply op) (p : Prog Op Reply α) (f : α → Prog Op Reply β) :
    (p.bind f).eval reply = (f (p.eval reply)).eval reply := by
  induction p with
  | done a => rfl
  | call op next ih => exact ih (reply op)

/-- Every call is allowed and every result is right, as long as the replies are. -/
def Safe (allowed : Op → Prop) (promised : ∀ op, Reply op → Prop) (right : α → Prop) :
    Prog Op Reply α → Prop
  | done a => right a
  | call op next => allowed op ∧ ∀ x, promised op x → Safe allowed promised right (next x)

section
variable {allowed allowed' : Op → Prop} {promised : ∀ op, Reply op → Prop}

theorem Safe.mono {right right' : α → Prop} (ha : ∀ op, allowed op → allowed' op)
    (hr : ∀ a, right a → right' a) {p : Prog Op Reply α} (h : p.Safe allowed promised right) :
    p.Safe allowed' promised right' := by
  induction p with
  | done a => exact hr a h
  | call op next ih => exact ⟨ha op h.1, fun x hx => ih x (h.2 x hx)⟩

theorem Safe.promise {promised' : ∀ op, Reply op → Prop} {right : α → Prop} {p : Prog Op Reply α}
    (h : p.Safe allowed promised right) (hp : ∀ op x, promised' op x → promised op x) :
    p.Safe allowed promised' right := by
  induction p with
  | done a => exact h
  | call op next ih => exact ⟨h.1, fun x hx => ih x (h.2 x (hp op x hx))⟩

theorem Safe.nextCall {right : α → Prop} {p : Prog Op Reply α} (h : p.Safe allowed promised right)
    {op : Op} (hop : p.nextCall = some op) : allowed op := by
  cases p with
  | done a => cases hop
  | call op' next =>
      obtain rfl := Option.some.inj hop
      exact h.1

theorem Safe.result {right : α → Prop} {p : Prog Op Reply α} (h : p.Safe allowed promised right)
    {a : α} (ha : p.result = some a) : right a := by
  cases p with
  | done a' =>
      obtain rfl := Option.some.inj ha
      exact h
  | call op next => cases ha

/-- The rule for a sequence: what the first part ensures is what the second may assume. -/
theorem Safe.bind {right : α → Prop} {right' : β → Prop} {p : Prog Op Reply α}
    {f : α → Prog Op Reply β} (h : p.Safe allowed promised right)
    (hf : ∀ a, right a → (f a).Safe allowed promised right') :
    (p.bind f).Safe allowed promised right' := by
  induction p with
  | done a => exact hf a h
  | call op next ih => exact ⟨h.1, fun x hx => ih x (h.2 x hx)⟩

end

/-- The program can come to make this call, whatever it is answered before. -/
inductive Issues : Prog Op Reply α → Op → Prop
  | here (op : Op) (next : Reply op → Prog Op Reply α) : Issues (call op next) op
  | later {op op' : Op} {next : Reply op → Prog Op Reply α} (x : Reply op) :
      Issues (next x) op' → Issues (call op next) op'

end Prog

/-! ### Interleavings -/

/-- What the shared state makes of the calls of numbered threads, and how it drifts. -/
structure System (Op : Type) (Reply : Op → Type) (Owner α σ : Type) where
  start : Owner → Prog Op Reply α
  handle : ℕ → σ → (op : Op) → Reply op → σ → Prop
  drift : σ → σ → Prop

/-- The state and the threads started so far; a thread that is done keeps its result. -/
structure Config (Op : Type) (Reply : Op → Type) (Owner α σ : Type) where
  state : σ
  threads : ℕ → Option (Owner × Prog Op Reply α)

namespace System
variable {Op : Type} {Reply : Op → Type} {Owner α σ : Type}

inductive Step (S : System Op Reply Owner α σ) :
    Config Op Reply Owner α σ → Config Op Reply Owner α σ → Prop
  | start {c : Config Op Reply Owner α σ} (i : ℕ) (owner : Owner) (hi : c.threads i = none) :
      Step S c { c with threads := Function.update c.threads i (some (owner, S.start owner)) }
  | call {c : Config Op Reply Owner α σ} (i : ℕ) (owner : Owner) (op : Op)
      (next : Reply op → Prog Op Reply α) (x : Reply op) (s : σ)
      (hi : c.threads i = some (owner, .call op next)) (hs : S.handle i c.state op x s) :
      Step S c ⟨s, Function.update c.threads i (some (owner, next x))⟩
  | drift {c : Config Op Reply Owner α σ} (s : σ) (hs : S.drift c.state s) :
      Step S c { c with state := s }

/-- No thread has started. -/
def initial (s : σ) : Config Op Reply Owner α σ := ⟨s, fun _ => none⟩

/-- The configurations of all runs from a state. -/
def Reachable (S : System Op Reply Owner α σ) (s : σ) : Config Op Reply Owner α σ → Prop :=
  Relation.ReflTransGen S.Step (initial s)

theorem exists_reachable_start (S : System Op Reply Owner α σ) (s : σ) (owner : Owner) :
    ∃ c, S.Reachable s c ∧ c.threads 0 = some (owner, S.start owner) := by
  have hstep : S.Step (initial s) _ := .start 0 owner rfl
  exact ⟨_, .single hstep, by simp⟩

/-- The invariant of a run: one of the state, and every thread safe for its owner. -/
structure Holds (inv : σ → Prop) (allowed : Owner → Op → Prop) (promised : ∀ op, Reply op → Prop)
    (right : Owner → α → Prop) (c : Config Op Reply Owner α σ) : Prop where
  state : inv c.state
  threads : ∀ i owner p, c.threads i = some (owner, p) →
    p.Safe (allowed owner) promised (right owner)

section
variable {S : System Op Reply Owner α σ} {inv : σ → Prop} {allowed : Owner → Op → Prop}
  {promised : ∀ op, Reply op → Prop} {right : Owner → α → Prop}

theorem Holds.update {c : Config Op Reply Owner α σ} (h : Holds inv allowed promised right c)
    {s : σ} (hs : inv s) (i : ℕ) {owner : Owner} {p : Prog Op Reply α}
    (hp : p.Safe (allowed owner) promised (right owner)) :
    Holds inv allowed promised right ⟨s, Function.update c.threads i (some (owner, p))⟩ := by
  constructor
  · exact hs
  · intro j owner' q hj
    by_cases hij : j = i
    · have hself : some (owner, p) = some (owner', q) := by simpa [hij] using hj
      obtain ⟨rfl, rfl⟩ := Prod.mk.inj (Option.some.inj hself)
      exact hp
    · exact h.threads j owner' q (by simpa [hij] using hj)

theorem Holds.step (hstart : ∀ owner, (S.start owner).Safe (allowed owner) promised (right owner))
    (hhandle : ∀ i s owner op x s', inv s → allowed owner op → S.handle i s op x s' →
      inv s' ∧ promised op x)
    (hdrift : ∀ s s', inv s → S.drift s s' → inv s')
    {c c' : Config Op Reply Owner α σ} (h : Holds inv allowed promised right c)
    (hstep : S.Step c c') : Holds inv allowed promised right c' := by
  cases hstep with
  | start i owner hi => exact h.update h.state i (hstart owner)
  | call i owner op next x s hi hs =>
      have hcall := h.threads i owner _ hi
      have hreply := hhandle i c.state owner op x s h.state hcall.1 hs
      exact h.update hreply.1 i (hcall.2 x hreply.2)
  | drift s hs => exact ⟨hdrift c.state s h.state hs, h.threads⟩

/-- What every program does alone, and every call does to the state, holds of all runs. -/
theorem guarantee (hstart : ∀ owner, (S.start owner).Safe (allowed owner) promised (right owner))
    (hhandle : ∀ i s owner op x s', inv s → allowed owner op → S.handle i s op x s' →
      inv s' ∧ promised op x)
    (hdrift : ∀ s s', inv s → S.drift s s' → inv s')
    {s : σ} (hs : inv s) {c : Config Op Reply Owner α σ} (hc : S.Reachable s c) :
    Holds inv allowed promised right c := by
  induction hc with
  | refl =>
      constructor
      · exact hs
      · intro i owner p hi
        cases hi
  | tail _ hstep ih => exact ih.step hstart hhandle hdrift hstep

/-- A thread that has started stays its owner's. -/
theorem Step.threads {c c' : Config Op Reply Owner α σ} (hstep : S.Step c c') {i : ℕ}
    {owner : Owner}
    {p : Prog Op Reply α} (hi : c.threads i = some (owner, p)) :
    ∃ p', c'.threads i = some (owner, p') := by
  cases hstep with
  | start j owner' hj =>
      have hij : i ≠ j := by
        rintro rfl
        rw [hi] at hj
        cases hj
      exact ⟨p, by simp [hij, hi]⟩
  | call j owner' op next x s hj hs =>
      by_cases hij : i = j
      · subst hij
        obtain ⟨rfl, -⟩ := Prod.mk.inj (Option.some.inj (hi.symm.trans hj))
        exact ⟨next x, by simp⟩
      · exact ⟨p, by simp [hij, hi]⟩
  | drift s hs => exact ⟨p, hi⟩

/-- The same for runs in which only these owners take part: the others need not be safe, and
the state may depend on who takes part. -/
theorem guarantee_among {present : Owner → Prop}
    (hstart : ∀ owner, present owner → (S.start owner).Safe (allowed owner) promised (right owner))
    (hhandle : ∀ i s owner op x s', present owner → inv s → allowed owner op →
      S.handle i s op x s' →
      inv s' ∧ promised op x)
    (hdrift : ∀ s s', inv s → S.drift s s' → inv s')
    {s : σ} (hs : inv s) {c : Config Op Reply Owner α σ} (hc : S.Reachable s c)
    (hpresent : ∀ i owner p, c.threads i = some (owner, p) → present owner) :
    Holds inv allowed promised right c := by
  induction hc with
  | refl =>
      constructor
      · exact hs
      · intro i owner p hi
        cases hi
  | tail _ hstep ih =>
      have hbefore := ih fun i owner p hi => by
        obtain ⟨p', hp'⟩ := hstep.threads hi
        exact hpresent i owner p' hp'
      cases hstep with
      | start i owner hi =>
          have howner : present owner := hpresent i owner (S.start owner) (by simp)
          exact hbefore.update hbefore.state i (hstart owner howner)
      | call i owner op next x s hi hs =>
          have howner : present owner := hpresent i owner (next x) (by simp)
          have hcall := hbefore.threads i owner _ hi
          have hreply := hhandle i _ owner op x s howner hbefore.state hcall.1 hs
          exact hbefore.update hreply.1 i (hcall.2 x hreply.2)
      | drift s hs => exact ⟨hdrift _ s hbefore.state hs, hbefore.threads⟩

end

end System
end PierGateway.Interaction
