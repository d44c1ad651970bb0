import PierGateway.CleanPaths
import PierGateway.PercentEncoding
import PierGateway.ServeMux

/-!
# Escaped paths that show their dots and slashes

A segment of an escaped path is visible when unescaping it uncovers no slash, and no
empty or dot segment that was not one before. Paths of visible segments can be
cleaned before or after unescaping, and they stay visible under everything a client
and a router do to a path.
-/
namespace PierGateway.VisiblePaths
open GoStrings NetUrl UrlLaws DotSegments CleanPaths PercentEncoding ServeMux

structure Visible (s : Str) : Prop where
  decoded : unescape .path s = some (unescapeSegment s)
  valid : validEncoded s = true
  noSlash : slash ∉ unescapeSegment s
  kind : dotKind (unescapeSegment s) = dotKind s

theorem unescapeSegment_eq {s t : Str} (h : unescape .path s = some t) : unescapeSegment s = t := by
  unfold unescapeSegment pathUnescape
  rw [unescape_pathSegment, h]
  rfl

theorem slash_mem_of_unescape {s t : Str} (h : unescape .path s = some t) (hs : slash ∈ s) :
    slash ∈ t := by
  have hhex : isHex slash = false := by decide
  have hne : slash ≠ percent := by decide
  induction s using unescape.induct .path generalizing t with
  | case1 => cases hs
  | case2 a b s hab ih =>
      have hab' := by simpa using hab
      rw [unescape_cons_percent plain_path hab'.1.1 hab'.1.2, Option.map_eq_some_iff] at h
      obtain ⟨t', ht', rfl⟩ := h
      have ha : slash ≠ a := fun he => by simp [← he, hhex] at hab'
      have hb : slash ≠ b := fun he => by simp [← he, hhex] at hab'
      have hmem : slash ∈ s := by simpa [hne, ha, hb] using hs
      exact List.mem_cons_of_mem _ (ih ht' hmem)
  | case3 a b s hab =>
      rw [unescape.eq_def] at h
      simp [hab] at h
  | case4 s hs' =>
      rw [unescape.eq_def] at h
      rcases s with _ | ⟨a, _ | ⟨b, s⟩⟩
      · simp at h
      · simp at h
      · exact absurd rfl (hs' a b s)
  | case5 c s hc hplus ih => simp at hplus
  | case6 c s hc hplus hbad => simp at hbad
  | case7 c s hc hplus hbad ih =>
      rw [unescape_cons_self plain_path hc (by simp), Option.map_eq_some_iff] at h
      obtain ⟨t', ht', rfl⟩ := h
      rcases List.mem_cons.mp hs with rfl | hs
      · exact List.mem_cons_self
      · exact List.mem_cons_of_mem _ (ih ht' hs)

theorem eq_nil_of_unescape {s : Str} (h : unescape .path s = some []) : s = [] := by
  induction s using unescape.induct .path with
  | case1 => rfl
  | case2 a b s hab ih =>
      have hab' := by simpa using hab
      rw [unescape_cons_percent plain_path hab'.1.1 hab'.1.2] at h
      simp at h
  | case3 a b s hab =>
      rw [unescape.eq_def] at h
      simp [hab] at h
  | case4 s hs =>
      rw [unescape.eq_def] at h
      rcases s with _ | ⟨a, _ | ⟨b, s⟩⟩
      · simp at h
      · simp at h
      · exact absurd rfl (hs a b s)
  | case5 c s hc hplus ih => simp at hplus
  | case6 c s hc hplus hbad => simp at hbad
  | case7 c s hc hplus hbad ih =>
      rw [unescape_cons_self plain_path hc (by simp)] at h
      simp at h

/-- An encoding that leaves dots alone does not change what a segment is. -/
theorem dotKind_comp {f : Str → Str} (hf : Function.Injective f) (h₁ : f [dot] = [dot])
    (h₂ : f [dot, dot] = [dot, dot]) (t : Str) : dotKind (f t) = dotKind t := by
  have hfix : ∀ d, f d = d → (f t = d ↔ t = d) := by
    intro d hd
    constructor
    · intro h
      exact hf (h.trans hd.symm)
    · intro h
      rw [h, hd]
  unfold dotKind
  simp only [hfix _ h₁, hfix _ h₂]

theorem Visible.eq_nil_iff {s : Str} (h : Visible s) : unescapeSegment s = [] ↔ s = [] := by
  constructor
  · intro hs
    have hd := h.decoded
    rw [hs] at hd
    exact eq_nil_of_unescape hd
  · rintro rfl
    rfl

theorem Visible.cleanKind_eq {s : Str} (h : Visible s) :
    cleanKind (unescapeSegment s) = cleanKind s := by
  unfold cleanKind
  simp only [h.eq_nil_iff, h.kind]

/-- What an encoder of segments makes is visible. -/
theorem visible_of_encoder {f : Str → Str} (hf : ∀ t, unescape .path (f t) = some t)
    (hv : ∀ t, validEncoded (f t) = true) (h₁ : f [dot] = [dot]) (h₂ : f [dot, dot] = [dot, dot])
    {t : Str} (ht : slash ∉ t) :
    Visible (f t) ∧ unescapeSegment (f t) = t := by
  have hinj : Function.Injective f := by
    intro t t' he
    have hd := hf t
    rw [he, hf t'] at hd
    exact (Option.some.inj hd).symm
  have hdec := unescapeSegment_eq (hf t)
  refine ⟨⟨?_, hv t, ?_, ?_⟩, hdec⟩
  · rw [hdec]
    exact hf t
  · rw [hdec]
    exact ht
  · rw [hdec]
    exact (dotKind_comp hinj h₁ h₂ t).symm

theorem visible_escape {t : Str} (ht : slash ∉ t) :
    Visible (escape .path t) ∧ unescapeSegment (escape .path t) = t :=
  visible_of_encoder (unescape_escape plain_path) validEncoded_escape (by decide)
    (by decide) ht

theorem visible_nil : Visible [] := ⟨by decide, by decide, by decide, by decide⟩

theorem Visible.slash_not_mem {s : Str} (h : Visible s) : slash ∉ s := fun hs =>
  h.noSlash (slash_mem_of_unescape h.decoded hs)

/-! ### Lists of visible segments -/

section
variable {segs : List Str}

theorem unescape_join (hv : ∀ s ∈ segs, Visible s) :
    unescape .path (join slash segs) = some (join slash (segs.map unescapeSegment)) := by
  induction segs with
  | nil => rfl
  | cons s segs ih =>
      have hs := (hv s List.mem_cons_self).decoded
      have hsegs := ih fun x hx => hv x (List.mem_cons_of_mem _ hx)
      cases segs with
      | nil => simpa [join] using hs
      | cons s' segs =>
          rw [List.map_cons] at hsegs
          rw [join_cons_cons, unescape_append hs, unescape_cons_slash, hsegs, List.map_cons,
            List.map_cons, join_cons_cons]
          rfl

theorem unescapeSegment_join (hv : ∀ s ∈ segs, Visible s) :
    unescapeSegment (join slash segs) = join slash (segs.map unescapeSegment) :=
  unescapeSegment_eq (unescape_join hv)

theorem unescape_ofSegments (hv : ∀ s ∈ segs, Visible s) :
    unescape .path (ofSegments segs) = some (ofSegments (segs.map unescapeSegment)) := by
  rw [ofSegments, unescape_cons_slash, unescape_join hv]
  rfl

theorem validEncoded_ofSegments (hv : ∀ s ∈ segs, Visible s) :
    validEncoded (ofSegments segs) = true := by
  have hslash : validEncodedByte slash = true := by decide
  have hjoin : validEncoded (join slash segs) = true := by
    induction segs with
    | nil => rfl
    | cons s segs ih =>
        have hs := (hv s List.mem_cons_self).valid
        have hsegs := ih fun x hx => hv x (List.mem_cons_of_mem _ hx)
        cases segs with
        | nil => simpa [join] using hs
        | cons s' segs =>
            unfold validEncoded at hs hsegs ⊢
            rw [join_cons_cons, List.all_append, List.all_cons, hs, hslash, hsegs]
            rfl
  unfold validEncoded at hjoin ⊢
  rw [ofSegments, List.all_cons, hslash, hjoin]
  rfl

theorem escape_ofSegments (segs : List Str) :
    escape .path (ofSegments segs) = ofSegments (segs.map (escape .path)) := by
  have hslash : ∀ s, escape .path (slash :: s) = slash :: escape .path s := by
    intro s
    have hbyte : escapeByte .path slash = [slash] := by decide
    unfold escape
    rw [List.flatMap_cons, hbyte]
    rfl
  have happend : ∀ s s', escape .path (s ++ s') = escape .path s ++ escape .path s' :=
    fun s s' => List.flatMap_append
  have hjoin : escape .path (join slash segs) = join slash (segs.map (escape .path)) := by
    induction segs with
    | nil => rfl
    | cons s segs ih =>
        cases segs with
        | nil => simp [join]
        | cons s' segs =>
            rw [List.map_cons] at ih
            rw [join_cons_cons, happend, hslash, ih, List.map_cons, List.map_cons, join_cons_cons]
  rw [ofSegments, hslash, hjoin]
  rfl

/-- Unescaping keeps clean what is visible and clean. -/
theorem clean_map (hv : ∀ s ∈ segs, Visible s) :
    Clean (segs.map unescapeSegment) ↔ Clean segs := by
  rcases List.eq_nil_or_concat segs with rfl | ⟨init, last, rfl⟩
  · rfl
  · rw [List.concat_eq_append] at hv ⊢
    rw [List.map_append, List.map_singleton, clean_append_singleton, clean_append_singleton,
      (hv last (by simp)).kind]
    have hinit : ∀ s ∈ init, cleanKind (unescapeSegment s) = cleanKind s := fun s hs =>
      (hv s (by simp [hs])).cleanKind_eq
    simp only [List.mem_map, forall_exists_index, and_imp, forall_apply_eq_imp_iff₂]
    constructor
    · intro h
      exact ⟨fun s hs => (hinit s hs).symm.trans (h.1 s hs), h.2⟩
    · intro h
      exact ⟨fun s hs => (hinit s hs).trans (h.1 s hs), h.2⟩

end

theorem rawSegments_ofSegments {segs : List Str} (hne : segs ≠ []) (hv : ∀ s ∈ segs, Visible s) :
    rawSegments (ofSegments segs) = segs := by
  have hslash : ∀ s ∈ segs, slash ∉ s := fun s hs => (hv s hs).slash_not_mem
  unfold rawSegments ofSegments
  rw [if_neg (by simp)]
  exact split_join slash hne hslash

end PierGateway.VisiblePaths
