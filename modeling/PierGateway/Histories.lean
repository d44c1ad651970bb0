import PierGateway.Interaction

/-!
# Runs with their histories

A run of a system is recorded as the list of the calls made, each with its thread, the
state it found and its reply. What a thread can be left with is fixed by its own
calls: `Prog.After` relates a program, calls with replies and the rest. A recorded
call was possible in the state it found, and that state ends a shorter run.
-/
namespace PierGateway.Interaction

namespace Prog
variable {Op : Type} {Reply : Op → Type} {α β : Type}

/-- What is left of a program after some calls and their replies. -/
inductive After : Prog Op Reply α → List (Σ op, Reply op) → Prog Op Reply α → Prop
  | nil (p : Prog Op Reply α) : After p [] p
  | cons {op : Op} {next : Reply op → Prog Op Reply α} {x : Reply op} {l : List (Σ op, Reply op)}
      {q : Prog Op Reply α} (h : After (next x) l q) : After (call op next) (⟨op, x⟩ :: l) q

theorem After.snoc {p : Prog Op Reply α} {l : List (Σ op, Reply op)} {op : Op}
    {next : Reply op → Prog Op Reply α} (h : After p l (call op next)) (x : Reply op) :
    After p (l ++ [⟨op, x⟩]) (next x) := by
  generalize hq : call op next = q at h
  induction h with
  | nil p =>
      subst hq
      exact .cons (.nil _)
  | cons _ ih => exact .cons (ih hq)

theorem after_done {a : α} {l : List (Σ op, Reply op)} {q : Prog Op Reply α}
    (h : After (done a) l q) : l = [] ∧ q = done a := by
  cases h
  exact ⟨rfl, rfl⟩

/-- A program that makes a call stands before it or is past it. -/
theorem after_call {op : Op} {next : Reply op → Prog Op Reply α} {l : List (Σ op, Reply op)}
    {q : Prog Op Reply α} (h : After (call op next) l q) :
    (l = [] ∧ q = call op next) ∨ ∃ x l', l = ⟨op, x⟩ :: l' ∧ After (next x) l' q := by
  cases h with
  | nil => exact .inl ⟨rfl, rfl⟩
  | cons h => exact .inr ⟨_, _, rfl, h⟩

/-- A sequence is in its first part, or the first part has ended and it is in the second. -/
theorem after_bind {p : Prog Op Reply α} {f : α → Prog Op Reply β} {l : List (Σ op, Reply op)}
    {q : Prog Op Reply β} (h : After (p.bind f) l q) :
    (∃ p', After p l p' ∧ q = p'.bind f) ∨
      ∃ l₁ l₂ a, l = l₁ ++ l₂ ∧ After p l₁ (done a) ∧ After (f a) l₂ q := by
  induction p generalizing l with
  | done a => exact .inr ⟨[], l, a, rfl, .nil _, h⟩
  | call op next ih =>
      rcases after_call h with ⟨rfl, rfl⟩ | ⟨x, l', rfl, h'⟩
      · exact .inl ⟨_, .nil _, rfl⟩
      · rcases ih x h' with ⟨p', hp', rfl⟩ | ⟨l₁, l₂, a, rfl, ha, hf⟩
        · exact .inl ⟨p', .cons hp', rfl⟩
        · exact .inr ⟨⟨op, x⟩ :: l₁, l₂, a, rfl, .cons ha, hf⟩

/-- What is safe stays safe, when the replies keep the promise. -/
theorem Safe.after {allowed : Op → Prop} {promised : ∀ op, Reply op → Prop} {right : α → Prop}
    {p q : Prog Op Reply α} {l : List (Σ op, Reply op)} (h : p.Safe allowed promised right)
    (hl : ∀ c ∈ l, promised c.1 c.2) (hq : p.After l q) :
    (∀ c ∈ l, allowed c.1) ∧ q.Safe allowed promised right := by
  induction hq with
  | nil => exact ⟨fun c hc => absurd hc List.not_mem_nil, h⟩
  | cons _ ih =>
      have hrest :=
        ih (h.2 _ (hl _ List.mem_cons_self)) fun c hc => hl c (List.mem_cons_of_mem _ hc)
      refine ⟨?_, hrest.2⟩
      intro c hc
      rcases List.mem_cons.mp hc with rfl | hc
      · exact h.1
      · exact hrest.1 c hc

end Prog

/-- One call as it happened. -/
structure Event (Op : Type) (Reply : Op → Type) (σ : Type) where
  thread : ℕ
  before : σ
  op : Op
  reply : Reply op

section
variable {Op : Type} {Reply : Op → Type} {Owner α σ : Type}

/-- The calls of one thread, in order. -/
def callsOf (h : List (Event Op Reply σ)) (i : ℕ) : List (Σ op, Reply op) :=
  h.filterMap fun e => if e.thread = i then some ⟨e.op, e.reply⟩ else none

theorem callsOf_append (h h' : List (Event Op Reply σ)) (i : ℕ) :
    callsOf (h ++ h') i = callsOf h i ++ callsOf h' i := List.filterMap_append

theorem callsOf_snoc_self (h : List (Event Op Reply σ)) (i : ℕ) (s : σ) (op : Op) (x : Reply op) :
    callsOf (h ++ [⟨i, s, op, x⟩]) i = callsOf h i ++ [⟨op, x⟩] := by
  rw [callsOf_append]
  simp [callsOf]

theorem callsOf_snoc_ne (h : List (Event Op Reply σ)) {i j : ℕ} (hij : j ≠ i) (s : σ) (op : Op)
    (x : Reply op) : callsOf (h ++ [⟨i, s, op, x⟩]) j = callsOf h j := by
  rw [callsOf_append]
  simp [callsOf, hij.symm]

theorem mem_callsOf_snoc {h : List (Event Op Reply σ)} {i j : ℕ} {s : σ} {op : Op} {x : Reply op}
    {c : Σ op, Reply op} :
    c ∈ callsOf (h ++ [⟨i, s, op, x⟩]) j ↔ c ∈ callsOf h j ∨ (j = i ∧ c = ⟨op, x⟩) := by
  by_cases hij : j = i
  · subst hij
    simp [callsOf_snoc_self]
  · simp [callsOf_snoc_ne h hij, hij]

theorem mem_callsOf {h : List (Event Op Reply σ)} {i : ℕ} {op : Op} {x : Reply op} :
    (⟨op, x⟩ : Σ op, Reply op) ∈ callsOf h i ↔ ∃ s, (⟨i, s, op, x⟩ : Event Op Reply σ) ∈ h := by
  unfold callsOf
  rw [List.mem_filterMap]
  constructor
  · rintro ⟨⟨j, s, op', x'⟩, he, hc⟩
    dsimp only at hc
    split_ifs at hc with hj
    subst hj
    cases hc
    exact ⟨s, he⟩
  · rintro ⟨s, he⟩
    exact ⟨_, he, if_pos rfl⟩

/-- A place in the history is known by how often the thread has called before. -/
theorem split_unique {h₁ h₂ h₁' h₂' : List (Event Op Reply σ)} {e e' : Event Op Reply σ}
    (hh : h₁ ++ e :: h₂ = h₁' ++ e' :: h₂') (he : e.thread = e'.thread)
    (hl : (callsOf h₁ e.thread).length = (callsOf h₁' e.thread).length) : h₁ = h₁' ∧ e = e' := by
  have hlonger : ∀ (g : List (Event Op Reply σ)) (f : Event Op Reply σ) (g' : List _),
      f.thread = e.thread →
        (callsOf (g ++ f :: g') e.thread).length ≠ (callsOf g e.thread).length := by
    intro g f g' hf
    rw [callsOf_append, List.length_append]
    have hcons : callsOf (f :: g') e.thread = ⟨f.op, f.reply⟩ :: callsOf g' e.thread := by
      simp [callsOf, hf]
    rw [hcons, List.length_cons]
    omega
  rcases List.append_eq_append_iff.mp hh with ⟨l, rfl, hl'⟩ | ⟨l, rfl, hl'⟩
  · cases l with
    | nil => exact ⟨(List.append_nil _).symm, (List.cons.inj hl').1⟩
    | cons f l =>
        obtain ⟨rfl, -⟩ := List.cons.inj hl'
        exact absurd hl.symm (hlonger h₁ e l rfl)
  · cases l with
    | nil => exact ⟨List.append_nil _, ((List.cons.inj hl').1).symm⟩
    | cons f l =>
        obtain ⟨rfl, -⟩ := List.cons.inj hl'
        exact absurd hl (hlonger h₁' e' l he.symm)

namespace System

/-- The runs of a system from a state, each with its history. -/
inductive Run (S : System Op Reply Owner α σ) (s₀ : σ) :
    List (Event Op Reply σ) → Config Op Reply Owner α σ → Prop
  | init : Run S s₀ [] (initial s₀)
  | start {h : List (Event Op Reply σ)} {c : Config Op Reply Owner α σ} (hr : Run S s₀ h c) (i : ℕ)
      (owner : Owner) (hi : c.threads i = none) :
      Run S s₀ h { c with threads := Function.update c.threads i (some (owner, S.start owner)) }
  | call {h : List (Event Op Reply σ)} {c : Config Op Reply Owner α σ} (hr : Run S s₀ h c) (i : ℕ)
      (owner : Owner) (op : Op) (next : Reply op → Prog Op Reply α) (x : Reply op) (s : σ)
      (hi : c.threads i = some (owner, .call op next)) (hs : S.handle i c.state op x s) :
      Run S s₀ (h ++ [⟨i, c.state, op, x⟩])
        ⟨s, Function.update c.threads i (some (owner, next x))⟩
  | drift {h : List (Event Op Reply σ)} {c : Config Op Reply Owner α σ} (hr : Run S s₀ h c) (s : σ)
      (hs : S.drift c.state s) : Run S s₀ h { c with state := s }

section
variable {S : System Op Reply Owner α σ} {s₀ : σ} {h : List (Event Op Reply σ)}
  {c : Config Op Reply Owner α σ}

theorem Run.first_call (hr : S.Run s₀ h c) {i : ℕ} {owner : Owner} (hi : c.threads i = none)
    {op : Op}
    {next : Reply op → Prog Op Reply α} (hp : S.start owner = .call op next) {x : Reply op} {s : σ}
    (hs : S.handle i c.state op x s) :
    S.Run s₀ (h ++ [⟨i, c.state, op, x⟩])
      ⟨s, Function.update c.threads i (some (owner, next x))⟩ := by
  have hstart := hr.start i owner hi
  rw [hp] at hstart
  have hcall := hstart.call i owner op next x s (Function.update_self ..) hs
  rwa [Function.update_idem] at hcall

theorem Run.next_call {i : ℕ} {owner : Owner} {t : σ}
    {threads : ℕ → Option (Owner × Prog Op Reply α)}
    {p : Prog Op Reply α} (hr : S.Run s₀ h ⟨t, Function.update threads i (some (owner, p))⟩)
    {op : Op}
    {next : Reply op → Prog Op Reply α} (hp : p = .call op next) {x : Reply op} {s : σ}
    (hs : S.handle i t op x s) :
    S.Run s₀ (h ++ [⟨i, t, op, x⟩]) ⟨s, Function.update threads i (some (owner, next x))⟩ := by
  rw [hp] at hr
  have hcall := hr.call i owner op next x s (Function.update_self ..) hs
  rwa [Function.update_idem] at hcall

/-- A thread is what its calls have left of its program. -/
theorem Run.thread (hr : S.Run s₀ h c) (i : ℕ) :
    (c.threads i = none → callsOf h i = []) ∧
      ∀ owner p, c.threads i = some (owner, p) → (S.start owner).After (callsOf h i) p := by
  induction hr with
  | init => exact ⟨fun _ => rfl, fun owner p hp => by cases hp⟩
  | @start h c _ j owner hj ih =>
      by_cases hij : i = j
      · subst hij
        rw [ih.1 hj]
        simp only [Function.update_self]
        refine ⟨fun hn => absurd hn (by simp), fun owner' p hp => ?_⟩
        cases hp
        exact .nil _
      · simpa only [Function.update_of_ne hij] using ih
  | @call h c _ j owner op next x s hj hs ih =>
      by_cases hij : i = j
      · subst hij
        rw [callsOf_snoc_self]
        simp only [Function.update_self]
        refine ⟨fun hn => absurd hn (by simp), fun owner' p hp => ?_⟩
        cases hp
        exact (ih.2 _ _ hj).snoc x
      · rw [callsOf_snoc_ne h hij]
        simpa only [Function.update_of_ne hij] using ih
  | drift _ s hs ih => exact ih

/-- A recorded call was made at the end of a shorter run, in the state it found. -/
theorem Run.split {h₁ h₂ : List (Event Op Reply σ)} {e : Event Op Reply σ}
    (hr : S.Run s₀ (h₁ ++ e :: h₂) c) :
    ∃ c₁, S.Run s₀ h₁ c₁ ∧ c₁.state = e.before ∧ ∃ owner next s,
      c₁.threads e.thread = some (owner, .call e.op next) ∧
        S.handle e.thread e.before e.op e.reply s := by
  generalize hh : h₁ ++ e :: h₂ = h at hr
  induction hr generalizing h₂ with
  | init => simp at hh
  | start _ i owner hi ih => exact ih hh
  | @call h c hr i owner op next x s hi hs ih =>
      rcases List.eq_nil_or_concat h₂ with rfl | ⟨h₂', e', rfl⟩
      · obtain ⟨rfl, he⟩ := List.append_inj' hh rfl
        obtain rfl := List.singleton_inj.mp he
        exact ⟨c, hr, rfl, owner, next, s, hi, hs⟩
      · rw [List.concat_eq_append, ← List.cons_append, ← List.append_assoc] at hh
        exact ih (List.append_inj' hh rfl).1
  | drift _ s hs ih => exact ih hh

/-- What every call and drift of the state keeps relates the state a call found to the last. -/
theorem Run.before {R : σ → σ → Prop} (htrans : ∀ s s' s'', R s s' → R s' s'' → R s s'')
    (hhandle : ∀ i s op x s', S.handle i s op x s' → R s s')
    (hdrift : ∀ s s', S.drift s s' → R s s') (hr : S.Run s₀ h c) :
    ∀ e ∈ h, R e.before c.state := by
  induction hr with
  | init => exact fun e he => absurd he List.not_mem_nil
  | start _ i owner hi ih => exact ih
  | @call h c _ i owner op next x s hi hs ih =>
      have hstep := hhandle i c.state op x s hs
      intro e he
      rcases List.mem_append.mp he with he | he
      · exact htrans _ _ _ (ih e he) hstep
      · obtain rfl := List.mem_singleton.mp he
        exact hstep
  | drift _ s hs ih => exact fun e he => htrans _ _ _ (ih e he) (hdrift _ _ hs)

/-- A thread whose calls can all be answered can be run to its end, the others standing still. -/
theorem Run.exists_done {τ : Type} {f : σ → τ} {allowed : Op → Prop}
    {promised : ∀ op, Reply op → Prop} {right : α → Prop} {i : ℕ} (hanswer : ∀ s op, allowed op →
      ∃ x s', promised op x ∧ S.handle i s op x s' ∧ f s' = f s)
    {p : Prog Op Reply α} (hp : p.Safe allowed promised right) {owner : Owner}
    (hr : S.Run s₀ h c) (hi : c.threads i = some (owner, p)) :
    ∃ h' c' a, S.Run s₀ (h ++ h') c' ∧ c'.threads i = some (owner, .done a) ∧
      f c'.state = f c.state ∧ ∀ j, j ≠ i → c'.threads j = c.threads j ∧ callsOf h' j = [] := by
  induction p generalizing h c with
  | done a =>
      refine ⟨[], c, a, ?_, hi, rfl, fun j _ => ⟨rfl, rfl⟩⟩
      rw [List.append_nil]
      exact hr
  | call op next ih =>
      obtain ⟨x, s, hx, hs, hf⟩ := hanswer c.state op hp.1
      have hstep := hr.call i owner op next x s hi hs
      obtain ⟨h', c', a, hr', hdone, hkept, hothers⟩ :=
        ih x (hp.2 x hx) hstep (Function.update_self ..)
      refine ⟨[⟨i, c.state, op, x⟩] ++ h', c', a, ?_, hdone, hkept.trans hf, fun j hj => ?_⟩
      · rw [← List.append_assoc]
        exact hr'
      · obtain ⟨hsame, hnone⟩ := hothers j hj
        refine ⟨hsame.trans (Function.update_of_ne hj ..), ?_⟩
        rw [callsOf_append, hnone]
        simp [callsOf, hj.symm]

/-- A call of a thread is one of its run. -/
theorem Run.exists_split {i : ℕ} {op : Op} {x : Reply op}
    (hmem : (⟨op, x⟩ : Σ op, Reply op) ∈ callsOf h i) :
    ∃ h₁ s h₂, h = h₁ ++ ⟨i, s, op, x⟩ :: h₂ := by
  obtain ⟨s, he⟩ := mem_callsOf.mp hmem
  obtain ⟨h₁, h₂, hh⟩ := List.append_of_mem he
  exact ⟨h₁, s, h₂, hh⟩

end

end System
end
end PierGateway.Interaction
