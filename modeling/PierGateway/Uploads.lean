import PierGateway.FolderUploads
import PierGateway.ObjectList

/-!
# Uploads in flight

The upload zone keeps a list of items and finds them again by the name of their file: whatever
happens to one upload is written to every item of that name. It stays while the user changes the
folder, so uploads of one name can overlap. There are never more items marked as uploading than
uploads in flight, and exactly as many as long as no upload comes to its end next to another of
its name. An item so marked is shown with a bar under its name as the key, so this counts items
and not what is on the screen, where the bars of one name are taken for one another.
-/
namespace PierGateway.Spa.UploadZone
open GoStrings EventRuns

inductive Status where
  | uploading | done | error
deriving DecidableEq

structure UploadItem where
  name : Str
  progress : ℤ
  status : Status
deriving DecidableEq

/-- An upload under way, with the place it was started in. -/
structure Upload where
  place : Place
  name : Str

/-- The bucket and the key that the file is put under. -/
def Upload.target (u : Upload) : Str × Str :=
  (u.place.bucket, Folders.uploadKey u.place.prefixPath u.name)

/-- The items of the zone, the uploads in flight and those that were put into the storage. -/
structure Zone where
  uploads : List UploadItem := []
  inFlight : List Upload := []
  uploaded : List Upload := []

inductive ZoneEvent where
  | customUpload (place : Place) (name : Str)
  | progress (i : ℕ) (percent : ℤ)
  | settle (i : ℕ) (ok : Bool)

/-- A change to the items of a name. -/
def update (name : Str) (f : UploadItem → UploadItem) (uploads : List UploadItem) :
    List UploadItem :=
  uploads.map fun u => if u.name = name then f u else u

/-- The end of an upload, for every item of its name. -/
def UploadItem.settled (ok : Bool) (u : UploadItem) : UploadItem :=
  if ok then { u with progress := 100, status := .done } else { u with status := .error }

namespace Zone

/-- An upload begins, under the key of the moment. -/
def customUpload (z : Zone) (place : Place) (name : Str) : Zone :=
  { z with
    uploads := z.uploads ++ [⟨name, 0, .uploading⟩]
    inFlight := z.inFlight ++ [⟨place, name⟩] }

def progress (z : Zone) (percent : ℤ) (u : Upload) : Zone :=
  { z with uploads := update u.name (fun item => { item with progress := percent }) z.uploads }

/-- The request of an upload is answered. -/
def settle (z : Zone) (i : ℕ) (ok : Bool) (u : Upload) : Zone where
  uploads := update u.name (UploadItem.settled ok) z.uploads
  inFlight := z.inFlight.eraseIdx i
  uploaded := if ok then z.uploaded ++ [u] else z.uploaded

def step (z : Zone) : ZoneEvent → Option Zone
  | .customUpload place name => some (z.customUpload place name)
  | .progress i percent => z.inFlight[i]?.map (z.progress percent)
  | .settle i ok => z.inFlight[i]?.map (z.settle i ok)

/-- The items of a name that are marked as uploading. -/
def marked (z : Zone) (name : Str) : ℕ :=
  z.uploads.countP fun u => u.status = .uploading ∧ u.name = name

def uploading (z : Zone) (name : Str) : ℕ := z.inFlight.countP fun u => u.name = name

/-- As many of these as uploads in flight, for every name. -/
def Exact (z : Zone) : Prop := ∀ name, z.marked name = z.uploading name

/-- The upload that comes to its end is the only one of its name. -/
def Alone (z : Zone) : ZoneEvent → Prop
  | .settle i _ => ∀ u, z.inFlight[i]? = some u → z.uploading u.name = 1
  | _ => True

variable {z z' : Zone} {e : ZoneEvent} {uploads : List UploadItem} {name name' : Str} {i : ℕ}

/-- A change that keeps names and statuses keeps the number of marked items. -/
theorem countP_update {f : UploadItem → UploadItem} (hname : ∀ u, (f u).name = u.name)
    (hstatus : ∀ u, (f u).status = u.status) :
    (update name f uploads).countP (fun u => u.status = .uploading ∧ u.name = name') =
      uploads.countP fun u => u.status = .uploading ∧ u.name = name' := by
  unfold update
  rw [List.countP_map]
  congr 1
  funext u
  dsimp only [Function.comp]
  split_ifs with h
  · rw [hname, hstatus]
  · rfl

theorem countP_settled_self (ok : Bool) :
    (update name (UploadItem.settled ok) uploads).countP
      (fun u => u.status = .uploading ∧ u.name = name) = 0 := by
  rw [List.countP_eq_zero]
  intro u hu
  obtain ⟨item, -, rfl⟩ := List.mem_map.mp hu
  split_ifs with h
  · unfold UploadItem.settled
    split_ifs
    · simp
    · simp
  · simp [h]

theorem countP_settled_ne (ok : Bool) (hne : name' ≠ name) :
    (update name (UploadItem.settled ok) uploads).countP
        (fun u => u.status = .uploading ∧ u.name = name') =
      uploads.countP fun u => u.status = .uploading ∧ u.name = name' := by
  unfold update
  rw [List.countP_map]
  congr 1
  funext u
  dsimp only [Function.comp]
  split_ifs with h
  · have hother : u.name ≠ name' := fun hsame => hne (hsame.symm.trans h)
    have hkept : (u.settled ok).name = u.name := by
      unfold UploadItem.settled
      split_ifs
      · rfl
      · rfl
    simp [hkept, hother]
  · rfl

theorem uploading_settle (ok : Bool) {u : Upload} (hu : z.inFlight[i]? = some u) (name : Str) :
    z.uploading name = (z.settle i ok u).uploading name + if u.name = name then 1 else 0 := by
  unfold uploading settle
  rw [← (perm_eraseIdx hu).countP_eq, List.countP_cons]
  simp

theorem marked_settle_self (ok : Bool) (u : Upload) : (z.settle i ok u).marked u.name = 0 :=
  countP_settled_self ok

theorem marked_settle_ne (ok : Bool) (u : Upload) (hne : name ≠ u.name) :
    (z.settle i ok u).marked name = z.marked name := countP_settled_ne ok hne

theorem marked_customUpload (z : Zone) (place : Place) (name name' : Str) :
    (z.customUpload place name).marked name' = z.marked name' + if name = name' then 1 else 0 := by
  simp [marked, customUpload, List.countP_append, List.countP_cons]

theorem uploading_customUpload (z : Zone) (place : Place) (name name' : Str) :
    (z.customUpload place name).uploading name' = z.uploading name' + if name = name' then 1
      else 0 := by
  simp [uploading, customUpload, List.countP_append, List.countP_cons]

theorem marked_progress (z : Zone) (percent : ℤ) (u : Upload) (name : Str) :
    (z.progress percent u).marked name = z.marked name :=
  countP_update (fun _ => rfl) (fun _ => rfl)

theorem step_cases (h : z.step e = some z') :
    (∃ name, ∀ name', z'.marked name' = z.marked name' + (if name = name' then 1 else 0) ∧
        z'.uploading name' = z.uploading name' + if name = name' then 1 else 0) ∨
      (∀ name', z'.marked name' = z.marked name' ∧ z'.uploading name' = z.uploading name') ∨
      ∃ i ok u, e = .settle i ok ∧ z.inFlight[i]? = some u ∧ z' = z.settle i ok u := by
  cases e with
  | customUpload place name =>
      obtain rfl := Option.some.inj h
      exact .inl ⟨name, fun name' =>
        ⟨marked_customUpload z place name name', uploading_customUpload z place name name'⟩⟩
  | progress i percent =>
      obtain ⟨u, -, rfl⟩ := Option.map_eq_some_iff.mp h
      exact .inr (.inl fun name' => ⟨marked_progress z percent u name', rfl⟩)
  | settle i ok =>
      obtain ⟨u, hu, rfl⟩ := Option.map_eq_some_iff.mp h
      exact .inr (.inr ⟨i, ok, u, rfl, hu, rfl⟩)

/-- There are never more marked items than uploads in flight. -/
def Bounded (z : Zone) : Prop := ∀ name, z.marked name ≤ z.uploading name

theorem Bounded.step (hz : Bounded z) (h : z.step e = some z') : Bounded z' := by
  intro name'
  have hmarked := hz name'
  rcases step_cases h with ⟨name, hstarted⟩ | hsame | ⟨i, ok, u, -, hu, rfl⟩
  · obtain ⟨hb, hu⟩ := hstarted name'
    omega
  · obtain ⟨hb, hu⟩ := hsame name'
    omega
  · by_cases hname : name' = u.name
    · rw [hname, marked_settle_self]
      exact Nat.zero_le _
    · have hrest := uploading_settle ok hu name'
      rw [if_neg (Ne.symm hname)] at hrest
      rw [marked_settle_ne ok u hname]
      omega

theorem Exact.step (hz : Exact z) (halone : z.Alone e) (h : z.step e = some z') : Exact z' := by
  intro name'
  have hmarked := hz name'
  rcases step_cases h with ⟨name, hstarted⟩ | hsame | ⟨i, ok, u, rfl, hu, rfl⟩
  · obtain ⟨hb, hu⟩ := hstarted name'
    omega
  · obtain ⟨hb, hu⟩ := hsame name'
    omega
  · have hrest := uploading_settle ok hu name'
    by_cases hname : name' = u.name
    · have hone := halone u hu
      rw [hname] at hrest ⊢
      rw [if_pos rfl] at hrest
      rw [marked_settle_self]
      omega
    · rw [if_neg (Ne.symm hname)] at hrest
      rw [marked_settle_ne ok u hname]
      omega

/-- An upload that ends next to another of its name takes the mark of that one with it. -/
theorem not_exact_of_crowded (h : z.step e = some z') (hcrowded : ¬z.Alone e) : ¬Exact z' := by
  intro hz'
  cases e with
  | customUpload place name => exact hcrowded trivial
  | progress i percent => exact hcrowded trivial
  | settle i ok =>
      obtain ⟨u, hu, rfl⟩ := Option.map_eq_some_iff.mp h
      have hmore : z.uploading u.name ≠ 1 := by
        intro hone
        refine hcrowded fun u' hu' => ?_
        obtain rfl := Option.some.inj (hu.symm.trans hu')
        exact hone
      have hmarked := hz' u.name
      have hrest := uploading_settle ok hu u.name
      rw [marked_settle_self] at hmarked
      rw [if_pos rfl] at hrest
      omega

/-- The keys that the bars of the marked items are shown under. -/
def keys (z : Zone) : List Str := (z.uploads.filter fun u => u.status = .uploading).map (·.name)

theorem count_keys (z : Zone) (name : Str) : z.keys.count name = z.marked name := by
  unfold keys marked
  rw [List.count_eq_countP, List.countP_map, List.countP_filter]
  congr 1
  funext u
  simp [beq_eq_decide, Bool.and_comm]

/-- In every run no name has more items marked as uploading than uploads in flight, so none is left
marked, and uploads of different names are shown under different keys; and a step keeps the number
right if and only if no upload ends in it next to another of its name. -/
theorem marked_exact_iff (h : Reaches step unguarded {} z) (hstep : z.step e = some z') :
    (∀ name, z.marked name ≤ z.uploading name) ∧
      ((z.inFlight.map (·.name)).Nodup → z.keys.Nodup) ∧
      (Exact z → (Exact z' ↔ z.Alone e)) := by
  have hempty : Bounded {} := fun _ => le_rfl
  have hbounded : Bounded z := h.invariant hempty fun _ _ _ hz _ hstep => hz.step hstep
  refine ⟨hbounded, ?_, ?_⟩
  · intro hdistinct
    rw [List.nodup_iff_count_le_one] at hdistinct ⊢
    intro name
    have hone := hdistinct name
    have huploading : (z.inFlight.map (·.name)).count name = z.uploading name := by
      unfold uploading
      rw [List.count_eq_countP, List.countP_map]
      congr 1
      funext u
      exact beq_eq_decide u.name name
    rw [huploading] at hone
    rw [count_keys]
    exact (hbounded name).trans hone
  · intro hz
    constructor
    · intro hz'
      by_contra hcrowded
      exact not_exact_of_crowded hstep hcrowded hz'
    · intro halone
      exact hz.step halone hstep

def first : Upload := ⟨⟨str "team", str "a/"⟩, str "x"⟩

/-- Two uploads of one name, into two folders. -/
def overlap : Zone :=
  (({} : Zone).customUpload first.place first.name).customUpload ⟨str "team", str "b/"⟩ (str "x")

theorem exact_overlap : Exact overlap := by
  intro name
  rw [overlap, marked_customUpload, uploading_customUpload, marked_customUpload,
    uploading_customUpload]
  rfl

/-- The first of them to end leaves the other without a mark. -/
theorem marked_exact_iff_overlap :
    (({} : Zone).customUpload first.place first.name).keys.Nodup ∧
      overlap.marked first.name ≤ overlap.uploading first.name ∧
        ¬Exact (overlap.settle 0 true first) := by
  have hone : Reaches step unguarded {} (({} : Zone).customUpload first.place first.name) :=
    .next (a := .customUpload first.place first.name) .refl trivial rfl
  have htwo : Reaches step unguarded {} overlap :=
    .next (a := .customUpload ⟨str "team", str "b/"⟩ (str "x")) hone trivial rfl
  have hended : overlap.step (.settle 0 true) = some (overlap.settle 0 true first) := rfl
  have hcrowded : ¬overlap.Alone (.settle 0 true) := by
    intro halone
    have hsingle := halone first rfl
    exact absurd hsingle (by decide)
  obtain ⟨hbounded, -, hexact⟩ := marked_exact_iff htwo hended
  have hstarted : (({} : Zone).customUpload first.place first.name).step
      (.customUpload ⟨str "team", str "b/"⟩ (str "x")) = some overlap := rfl
  refine ⟨(marked_exact_iff hone hstarted).2.1 (by simp [customUpload]), hbounded first.name, ?_⟩
  exact (hexact exact_overlap).not.mpr hcrowded

end Zone

end PierGateway.Spa.UploadZone
