import PierGateway.DotSegments

/-!
# Clean paths

An absolute path is a list of segments, and cleaning it is a walk over the list. A
path is left as it is exactly when its segments are clean: none but the last is
empty, and none is a dot segment.
-/
namespace PierGateway.CleanPaths
open GoStrings DotSegments

/-- The absolute path with these segments. -/
def ofSegments (segs : List Str) : Str := slash :: join slash segs

theorem ofSegments_injective {segs segs' : List Str} (hne : segs ≠ []) (hne' : segs' ≠ [])
    (h : ∀ s ∈ segs, slash ∉ s) (h' : ∀ s ∈ segs', slash ∉ s)
    (he : ofSegments segs = ofSegments segs') : segs = segs' := by
  calc segs
      = segments (ofSegments segs) := (segments_join hne h).symm
    _ = segments (ofSegments segs') := congrArg segments he
    _ = segs' := segments_join hne' h'

theorem join_append_singleton (sep : UInt8) (init : List Str) (last : Str) (h : init ≠ []) :
    join sep (init ++ [last]) = join sep init ++ sep :: last := by
  induction init with
  | nil => exact absurd rfl h
  | cons p ps ih =>
      cases ps with
      | nil => simp [join]
      | cons q qs =>
          rw [List.cons_append, List.cons_append, join_cons_cons, join_cons_cons,
            ← List.cons_append, ih (by simp), List.append_assoc]
          rfl

/-- A path ends in a slash exactly when its last segment is empty. -/
theorem getLast?_ofSegments (init : List Str) {last : Str} (h : slash ∉ last) :
    (ofSegments (init ++ [last])).getLast? = some slash ↔ last = [] := by
  have hform : ∃ front, ofSegments (init ++ [last]) = front ++ slash :: last := by
    by_cases hinit : init = []
    · exact ⟨[], by simp [hinit, ofSegments, join]⟩
    · exact ⟨slash :: join slash init,
        by rw [ofSegments, join_append_singleton slash init last hinit, List.cons_append]⟩
  obtain ⟨front, hfront⟩ := hform
  rw [hfront]
  rcases List.eq_nil_or_concat last with rfl | ⟨l, c, rfl⟩
  · simp
  · have hc : c ≠ slash := fun hc => h (by simp [hc])
    rw [List.concat_eq_append, ← List.cons_append, ← List.append_assoc, List.getLast?_concat]
    simp [hc]

theorem count_slash_join {segs : List Str} (hne : segs ≠ []) (h : ∀ s ∈ segs, slash ∉ s) :
    (join slash segs).count slash + 1 = segs.length := by
  induction segs with
  | nil => exact absurd rfl hne
  | cons p ps ih =>
      have hp : p.count slash = 0 := List.count_eq_zero.mpr (h p List.mem_cons_self)
      cases ps with
      | nil => simp [join, hp]
      | cons q qs =>
          have hqs := ih (by simp) fun s hs => h s (List.mem_cons_of_mem _ hs)
          rw [join_cons_cons, List.count_append, List.count_cons_self, hp, List.length_cons, ← hqs]
          omega

theorem count_slash_ofSegments {segs : List Str} (hne : segs ≠ []) (h : ∀ s ∈ segs, slash ∉ s) :
    (ofSegments segs).count slash = segs.length := by
  rw [ofSegments, List.count_cons_self]
  exact count_slash_join hne h

/-! ### Cleaning -/

/-- The segments of a cleaned path. -/
def cleanSegments (segs : List Str) : List Str :=
  if resolve cleanKind segs = [] then [[]]
  else resolve cleanKind segs ++ if segs.getLast? = some [] then [[]] else []

theorem cleanSegments_ne_nil (segs : List Str) : cleanSegments segs ≠ [] := by
  unfold cleanSegments
  split_ifs with h
  · simp
  · simp [h]
  · simpa using h

theorem mem_cleanSegments {segs : List Str} {s : Str} (h : s ∈ cleanSegments segs) :
    s = [] ∨ s ∈ segs ∧ cleanKind s = .name := by
  unfold cleanSegments at h
  split_ifs at h
  · exact .inl (by simpa using h)
  · rcases List.mem_append.mp h with h | h
    · exact .inr (mem_resolve h)
    · exact .inl (by simpa using h)
  · exact .inr (mem_resolve (by simpa using h))

theorem cleanKind_nil : cleanKind [] = .here := by decide

theorem join_resolve_ne_nil {segs : List Str} (h : resolve cleanKind segs ≠ []) :
    join slash (resolve cleanKind segs) ≠ [] := by
  intro hjoin
  rcases join_eq_nil_iff.mp hjoin with hnil | hnil
  · exact h hnil
  · have hempty : [] ∈ resolve cleanKind segs := by simp [hnil]
    have hname := (mem_resolve hempty).2
    rw [cleanKind_nil] at hname
    cases hname

theorem cleanPath_ofSegments {segs : List Str} (hne : segs ≠ []) (h : ∀ s ∈ segs, slash ∉ s) :
    cleanPath (ofSegments segs) = ofSegments (cleanSegments segs) := by
  obtain ⟨init, last, rfl⟩ : ∃ init last, segs = init ++ [last] := by
    rcases List.eq_nil_or_concat segs with rfl | ⟨init, last, rfl⟩
    · exact absurd rfl hne
    · exact ⟨init, last, List.concat_eq_append⟩
  have hlast := getLast?_ofSegments init (h last (by simp))
  have hsegs : segments (ofSegments (init ++ [last])) = init ++ [last] := segments_join hne h
  have hhead : (ofSegments (init ++ [last])).head? = some slash := rfl
  have hnil : ofSegments (init ++ [last]) ≠ [] := by simp [ofSegments]
  unfold cleanPath cleanSegments
  rw [if_neg hnil]
  dsimp only
  rw [if_pos hhead, hsegs]
  simp only [hlast, List.getLast?_concat, Option.some.injEq]
  by_cases hr : resolve cleanKind (init ++ [last]) = []
  · rw [if_pos hr, hr, if_neg (by simp [join])]
    rfl
  · have hjoin := join_resolve_ne_nil hr
    rw [if_neg hr]
    by_cases hl : last = []
    · rw [if_pos ⟨hl, by simpa using hjoin⟩, if_pos hl, ofSegments,
        join_append_singleton slash _ _ hr]
      rfl
    · rw [if_neg (fun hc => hl hc.1), if_neg hl, List.append_nil]
      rfl

/-- Every segment is a name, but the last may be empty. -/
def Clean (segs : List Str) : Prop :=
  ∃ init last, segs = init ++ [last] ∧ (∀ s ∈ init, cleanKind s = .name) ∧ dotKind last = .name

theorem clean_append_singleton {init : List Str} {last : Str} :
    Clean (init ++ [last]) ↔ (∀ s ∈ init, cleanKind s = .name) ∧ dotKind last = .name := by
  constructor
  · intro h
    obtain ⟨init', last', he, hinit, hlast⟩ := h
    obtain ⟨rfl, rfl⟩ := List.append_inj' he rfl |>.imp_right List.singleton_inj.mp
    exact ⟨hinit, hlast⟩
  · intro h
    exact ⟨init, last, rfl, h.1, h.2⟩

theorem clean_append {l l' : List Str} (hne : l' ≠ []) :
    Clean (l ++ l') ↔ (∀ s ∈ l, cleanKind s = .name) ∧ Clean l' := by
  rcases List.eq_nil_or_concat l' with rfl | ⟨init, last, rfl⟩
  · exact absurd rfl hne
  · rw [List.concat_eq_append, ← List.append_assoc, clean_append_singleton, clean_append_singleton,
      List.forall_mem_append, and_assoc]

theorem dotKind_of_cleanKind {s : Str} (h : cleanKind s = .name) : dotKind s = .name := by
  unfold cleanKind at h
  split_ifs at h
  exact h

theorem Clean.dotKind_eq {segs : List Str} (h : Clean segs) : ∀ s ∈ segs, dotKind s = .name := by
  obtain ⟨init, last, rfl, hinit, hlast⟩ := h
  intro s hs
  rcases List.mem_append.mp hs with hs | hs
  · exact dotKind_of_cleanKind (hinit s hs)
  · rw [List.mem_singleton.mp hs]
    exact hlast

theorem Clean.cleanSegments_eq {segs : List Str} (h : Clean segs) : cleanSegments segs = segs := by
  obtain ⟨init, last, rfl, hinit, hlast⟩ := h
  have hres := resolve_of_names hinit
  unfold cleanSegments
  by_cases hl : last = []
  · have hhere : cleanKind last = .here := by
      rw [hl]
      exact cleanKind_nil
    have hall : resolve cleanKind (init ++ [last]) = init := (resolve_append_here hhere).trans hres
    rw [hall]
    by_cases hi : init = []
    · rw [if_pos hi, hi, hl]
      rfl
    · rw [if_neg hi, hl, List.getLast?_concat, if_pos rfl]
  · have hname : cleanKind last = .name := by
      unfold cleanKind
      rw [if_neg hl]
      exact hlast
    rw [resolve_append_name hname, hres, if_neg (by simp), List.getLast?_concat,
      if_neg (by simpa using hl), List.append_nil]

theorem clean_cleanSegments (segs : List Str) : Clean (cleanSegments segs) := by
  have hnames : ∀ s ∈ resolve cleanKind segs, cleanKind s = .name := fun s hs => (mem_resolve hs).2
  have hempty : dotKind [] = .name := dotKind_nil
  unfold cleanSegments
  split_ifs with hr hl
  · exact ⟨[], [], rfl, by simp, hempty⟩
  · exact ⟨_, [], rfl, hnames, hempty⟩
  · rw [List.append_nil]
    obtain ⟨init, last, he⟩ : ∃ init last, resolve cleanKind segs = init ++ [last] := by
      rcases List.eq_nil_or_concat (resolve cleanKind segs) with he | ⟨init, last, he⟩
      · exact absurd he hr
      · exact ⟨init, last, by rw [he, List.concat_eq_append]⟩
    rw [he] at hnames ⊢
    exact ⟨init, last, rfl, fun s hs => hnames s (by simp [hs]),
      dotKind_of_cleanKind (hnames last (by simp))⟩

/-- Cleaning leaves exactly the clean paths as they are. -/
theorem cleanPath_eq_self_iff {segs : List Str} (hne : segs ≠ []) (h : ∀ s ∈ segs, slash ∉ s) :
    cleanPath (ofSegments segs) = ofSegments segs ↔ Clean segs := by
  rw [cleanPath_ofSegments hne h]
  have hslash : ∀ s ∈ cleanSegments segs, slash ∉ s := by
    intro s hs
    rcases mem_cleanSegments hs with rfl | hs
    · exact List.not_mem_nil
    · exact h s hs.1
  constructor
  · intro he
    have heq := ofSegments_injective (cleanSegments_ne_nil segs) hne hslash h he
    exact heq ▸ clean_cleanSegments segs
  · intro hc
    rw [hc.cleanSegments_eq]

end PierGateway.CleanPaths
