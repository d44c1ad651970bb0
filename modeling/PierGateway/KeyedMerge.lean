import Mathlib.Data.List.Induction
import Mathlib.Data.List.Nodup
import Mathlib.Order.BoundedOrder.Lattice

/-!
# Merging by key

Keyed values are folded into an association list, where the values of one key are
joined. The keys of the result are those of the input, each once, and the value of a
key is the least upper bound of its values, so neither order nor repetition of the
input matters.
-/
namespace PierGateway.KeyedMerge

variable {K V : Type*} [DecidableEq K] [SemilatticeSup V]

/-- Join a value into the entry of its key; a new key goes to the end. -/
def merge (k : K) (v : V) : List (K × V) → List (K × V)
  | [] => [(k, v)]
  | e :: es => if e.1 = k then (k, e.2 ⊔ v) :: es else e :: merge k v es

def mergeAll (l : List (K × V)) : List (K × V) := l.foldl (fun es e => merge e.1 e.2 es) []

section
variable [OrderBot V]

/-- The join of the values of a key. -/
def total (l : List (K × V)) (k : K) : V :=
  match l with
  | [] => ⊥
  | e :: es => if e.1 = k then e.2 ⊔ total es k else total es k

theorem total_le_iff {l : List (K × V)} {k : K} {x : V} :
    total l k ≤ x ↔ ∀ v, (k, v) ∈ l → v ≤ x := by
  induction l with
  | nil => simp [total]
  | cons e es ih =>
      obtain ⟨k', v'⟩ := e
      unfold total
      split_ifs with hk
      · obtain rfl : k' = k := hk
        simp [ih]
      · have hne : k ≠ k' := fun he => hk he.symm
        simp [ih, hne]

theorem le_total {l : List (K × V)} {k : K} {v : V} (h : (k, v) ∈ l) : v ≤ total l k :=
  total_le_iff.mp le_rfl v h

/-- Only the set of keyed values counts. -/
theorem total_congr {l l' : List (K × V)} (h : ∀ e, e ∈ l ↔ e ∈ l') (k : K) :
    total l k = total l' k := by
  apply le_antisymm
  · exact total_le_iff.mpr fun v hv => le_total ((h _).mp hv)
  · exact total_le_iff.mpr fun v hv => le_total ((h _).mpr hv)

theorem total_append_singleton (l : List (K × V)) (e : K × V) (k : K) :
    total (l ++ [e]) k = if e.1 = k then total l k ⊔ e.2 else total l k := by
  induction l with
  | nil =>
      have hnil : total ([] : List (K × V)) k = ⊥ := rfl
      rw [List.nil_append, hnil, bot_sup_eq, total, hnil, sup_bot_eq]
  | cons d l ih =>
      rw [List.cons_append, total, ih, total]
      split_ifs
      · rw [sup_assoc]
      · rfl
      · rfl
      · rfl

theorem total_eq_bot {l : List (K × V)} {k : K} (h : ∀ v, (k, v) ∉ l) : total l k = ⊥ :=
  le_bot_iff.mp (total_le_iff.mpr fun v hv => absurd hv (h v))

end

/-! ### The fold -/

theorem keys_merge (k : K) (v : V) (es : List (K × V)) :
    (merge k v es).map Prod.fst =
      if k ∈ es.map Prod.fst then es.map Prod.fst else es.map Prod.fst ++ [k] := by
  induction es with
  | nil => simp [merge]
  | cons e es ih =>
      unfold merge
      split_ifs with hk hmem
      · simp [hk]
      · simp [hk] at hmem
      · next hmem =>
          have hes : k ∈ es.map Prod.fst := by
            rcases List.mem_cons.mp hmem with he | he
            · exact absurd he.symm hk
            · exact he
          rw [List.map_cons, ih, if_pos hes, List.map_cons]
      · next hmem =>
          have hes : k ∉ es.map Prod.fst := fun he => hmem (List.mem_cons_of_mem _ he)
          rw [List.map_cons, ih, if_neg hes, List.map_cons, List.cons_append]

theorem mem_merge {k : K} {v : V} {es : List (K × V)} (hnd : (es.map Prod.fst).Nodup) {e : K × V}
    (h : e ∈ merge k v es) :
    (e.1 ≠ k ∧ e ∈ es) ∨ (e.1 = k ∧ ∃ u, (k, u) ∈ es ∧ e.2 = u ⊔ v) ∨
      (e.1 = k ∧ k ∉ es.map Prod.fst ∧ e.2 = v) := by
  induction es with
  | nil =>
      rw [merge, List.mem_singleton] at h
      exact .inr (.inr (by simp [h]))
  | cons d es ih =>
      obtain ⟨hd, hes⟩ := List.nodup_cons.mp hnd
      unfold merge at h
      split_ifs at h with hk
      · rcases List.mem_cons.mp h with rfl | he
        · exact .inr (.inl ⟨rfl, d.2, by simp [← hk], rfl⟩)
        · have hne : e.1 ≠ k := by
            intro hek
            exact hd (hk ▸ hek ▸ List.mem_map_of_mem he)
          exact .inl ⟨hne, List.mem_cons_of_mem _ he⟩
      · rcases List.mem_cons.mp h with rfl | he
        · exact .inl ⟨hk, List.mem_cons_self⟩
        · rcases ih hes he with ⟨hne, he⟩ | ⟨hek, u, hu, hv⟩ | ⟨hek, hnew, hv⟩
          · exact .inl ⟨hne, List.mem_cons_of_mem _ he⟩
          · exact .inr (.inl ⟨hek, u, List.mem_cons_of_mem _ hu, hv⟩)
          · refine .inr (.inr ⟨hek, ?_, hv⟩)
            rw [List.map_cons, List.mem_cons, not_or]
            exact ⟨Ne.symm hk, hnew⟩

variable [OrderBot V]

/-- What an association list holds after the fold over `l`. -/
structure Merged (l es : List (K × V)) : Prop where
  nodup : (es.map Prod.fst).Nodup
  mem_keys : ∀ k, k ∈ es.map Prod.fst ↔ k ∈ l.map Prod.fst
  value : ∀ e ∈ es, e.2 = total l e.1

theorem Merged.step {l es : List (K × V)} (h : Merged l es) (k : K) (v : V) :
    Merged (l ++ [(k, v)]) (merge k v es) := by
  constructor
  · rw [keys_merge]
    split_ifs with hk
    · exact h.nodup
    · exact h.nodup.append (List.nodup_singleton k) (by simpa using hk)
  · intro k'
    rw [keys_merge, List.map_append, List.mem_append, ← h.mem_keys k']
    split_ifs with hk
    · simp only [List.map_cons, List.map_nil, List.mem_singleton]
      constructor
      · exact .inl
      · rintro (hk' | rfl)
        · exact hk'
        · exact hk
    · simp
  · intro e he
    rw [total_append_singleton]
    rcases mem_merge h.nodup he with ⟨hne, he⟩ | ⟨rfl, u, hu, hv⟩ | ⟨rfl, hnew, hv⟩
    · rw [if_neg (Ne.symm hne), h.value e he]
    · have hu' : u = total l e.1 := h.value _ hu
      rw [if_pos rfl, hv, hu']
    · have hnone : ∀ w, (e.1, w) ∉ l := fun w hw =>
        hnew ((h.mem_keys e.1).mpr (List.mem_map.mpr ⟨_, hw, rfl⟩))
      rw [if_pos rfl, total_eq_bot hnone, bot_sup_eq, hv]

theorem merged_mergeAll (l : List (K × V)) : Merged l (mergeAll l) := by
  induction l using List.reverseRecOn with
  | nil => exact ⟨List.nodup_nil, by simp [mergeAll], by simp [mergeAll]⟩
  | append_singleton l e ih =>
      have hstep : mergeAll (l ++ [e]) = merge e.1 e.2 (mergeAll l) := by
        simp [mergeAll]
      rw [hstep]
      exact ih.step e.1 e.2

theorem Merged.mem_iff {l es : List (K × V)} (h : Merged l es) {k : K} {v : V} :
    (k, v) ∈ es ↔ k ∈ l.map Prod.fst ∧ v = total l k := by
  constructor
  · intro he
    exact ⟨(h.mem_keys k).mp (List.mem_map.mpr ⟨_, he, rfl⟩), h.value _ he⟩
  · intro hk
    obtain ⟨e, he, rfl⟩ := List.mem_map.mp ((h.mem_keys k).mpr hk.1)
    rw [hk.2, ← h.value e he]
    exact he

end PierGateway.KeyedMerge
