import Mathlib.Data.List.Basic
import Mathlib.Tactic

/-!
# Runs of events

A component that reacts to events has a state and a partial step: an event that is not
possible in a state has no successor. A run is guarded when every event of it meets a
condition on the state it finds; an invariant that guarded steps preserve holds in
every state of every guarded run. A run can be recorded with its history, every event
with the state it found; what happened in it is read off the history and not off the
state. Things in flight are a list, taken by position.
-/
namespace PierGateway.EventRuns
variable {σ α β : Type*} {step : σ → α → Option σ} {guard : σ → α → Prop} {s t : σ}

/-- The states of the runs from `s` whose events all meet the guard. -/
inductive Reaches (step : σ → α → Option σ) (guard : σ → α → Prop) (s : σ) : σ → Prop
  | refl : Reaches step guard s s
  | next {t u : σ} {a : α} (h : Reaches step guard s t) (hguard : guard t a)
      (hstep : step t a = some u) : Reaches step guard s u

/-- What holds at the start and is kept by every guarded step holds in every state reached. -/
theorem Reaches.invariant {inv : σ → Prop} (hs : inv s)
    (hkeep : ∀ t a u, inv t → guard t a → step t a = some u → inv u)
    (h : Reaches step guard s t) : inv t := by
  induction h with
  | refl => exact hs
  | next _ hguard hstep ih => exact hkeep _ _ _ ih hguard hstep

/-- No condition on the events. -/
def unguarded : σ → α → Prop := fun _ _ => True

/-! ### Histories -/

/-- The same runs with their histories: every event with the state it found. -/
inductive Runs (step : σ → α → Option σ) (guard : σ → α → Prop) (s : σ) : List (σ × α) → σ → Prop
  | nil : Runs step guard s [] s
  | snoc {h : List (σ × α)} {t u : σ} {a : α} (hrun : Runs step guard s h t) (hguard : guard t a)
      (hstep : step t a = some u) : Runs step guard s (h ++ [(t, a)]) u

/-- What holds of nothing and the start, and is kept by every guarded step, holds of every history
and the state it ends in. -/
theorem Runs.invariant {inv : List (σ × α) → σ → Prop} (hs : inv [] s)
    (hkeep : ∀ h t a u, inv h t → guard t a → step t a = some u → inv (h ++ [(t, a)]) u)
    {h : List (σ × α)} (hrun : Runs step guard s h t) : inv h t := by
  induction hrun with
  | nil => exact hs
  | snoc _ hguard hstep ih => exact hkeep _ _ _ _ ih hguard hstep

/-- What some of the events of a history show. -/
def seen (see : σ → α → Option β) (h : List (σ × α)) : List β := h.filterMap fun e => see e.1 e.2

@[simp] theorem seen_nil (see : σ → α → Option β) : seen see [] = [] := rfl

@[simp] theorem seen_snoc (see : σ → α → Option β) (h : List (σ × α)) (t : σ) (a : α) :
    seen see (h ++ [(t, a)]) = seen see h ++ (see t a).toList := by
  unfold seen
  rw [List.filterMap_append]
  cases hsee : see t a <;> simp [hsee]

/-- The last of a kind decides. -/
def decided (kind : α → Bool) (value : α → Option β) (l : List α) : Option β :=
  ((l.filter kind).getLast?).bind value

theorem decided_snoc (kind : α → Bool) (value : α → Option β) (l : List α) (a : α) :
    decided kind value (l ++ [a]) = if kind a then value a else decided kind value l := by
  unfold decided
  rw [List.filter_append]
  split_ifs with hkind
  · rw [List.filter_cons_of_pos hkind, List.filter_nil, List.getLast?_concat]
    rfl
  · rw [List.filter_cons_of_neg hkind, List.filter_nil, List.append_nil]

/-! ### Things in flight -/

theorem mem_eraseIdx_of_ne {l : List α} {i : ℕ} {x y : α} (hx : x ∈ l) (hy : l[i]? = some y)
    (hne : x ≠ y) : x ∈ l.eraseIdx i := by
  rw [List.mem_eraseIdx_iff_getElem?]
  obtain ⟨j, hj⟩ := List.mem_iff_getElem?.mp hx
  refine ⟨j, ?_, hj⟩
  rintro rfl
  rw [hj] at hy
  exact hne (Option.some.inj hy)

theorem perm_eraseIdx {l : List α} {i : ℕ} {x : α} (h : l[i]? = some x) :
    (x :: l.eraseIdx i).Perm l := by
  obtain ⟨hi, rfl⟩ := List.getElem?_eq_some_iff.mp h
  exact List.getElem_cons_eraseIdx_perm hi

end PierGateway.EventRuns
