import Mathlib.Data.List.DropRight
import Mathlib.Data.List.Infix
import Mathlib.Tactic

/-!
# Keys as a tree of folders

A set of keys, lists over any alphabet with a separator, is shown one folder at a time: a
folder is a prefix that is empty or ends with the separator, its leaves are the keys with no
separator behind it and its children the next folders on the way to longer keys. Walking from
the root along the children reaches exactly the folders that have a key below them, and every
key is a leaf of exactly one of these.
-/
namespace PierGateway.KeyTrees
variable {α : Type*} {sep : α} {p q k : List α} {keys : Set (List α)}

/-- A prefix that keys are grouped by. -/
def Folder (sep : α) (p : List α) : Prop := p = [] ∨ ∃ s, p = s ++ [sep]

/-- The key is in the folder, not below it. -/
def Leaf (sep : α) (p k : List α) : Prop := ∃ name, sep ∉ name ∧ k = p ++ name

/-- The next folder on the way from a folder to a key. -/
def Child (sep : α) (p q k : List α) : Prop := ∃ name, sep ∉ name ∧ q = p ++ name ++ [sep] ∧ q <+: k

/-- The folders on the way from the root. -/
inductive Reach (sep : α) (keys : Set (List α)) : List α → Prop
  | root : Reach sep keys []
  | next {p q k : List α} (h : Reach sep keys p) (hk : k ∈ keys) (hq : Child sep p q k) :
      Reach sep keys q

theorem Child.folder (h : Child sep p q k) : Folder sep q := by
  obtain ⟨name, -, rfl, -⟩ := h
  exact .inr ⟨p ++ name, rfl⟩

theorem exists_leaf [DecidableEq α] (sep : α) (k : List α) : ∃ p, Folder sep p ∧ Leaf sep p k := by
  refine ⟨k.rdropWhile (· ≠ sep), ?_, k.rtakeWhile (· ≠ sep), ?_,
    List.rdropWhile_append_rtakeWhile.symm⟩
  · by_cases hne : k.rdropWhile (· ≠ sep) = []
    · exact .inl hne
    · have hlast := List.rdropWhile_last_not (· ≠ sep) k hne
      have hsep : (k.rdropWhile (· ≠ sep)).getLast hne = sep := by simpa using hlast
      refine .inr ⟨(k.rdropWhile (· ≠ sep)).dropLast, ?_⟩
      have hconcat := List.dropLast_append_getLast hne
      rw [hsep] at hconcat
      exact hconcat.symm
  · intro hmem
    have hkept := List.mem_rtakeWhile_imp hmem
    simp at hkept

/-- A folder that begins a list begins every folder that the list is a leaf of. -/
theorem prefix_of_leaf (hq : Folder sep q) (hqk : q <+: k) (hk : Leaf sep p k) : q <+: p := by
  obtain ⟨name, hname, rfl⟩ := hk
  rcases hq with rfl | ⟨s, rfl⟩
  · exact List.nil_prefix
  · obtain ⟨t, ht⟩ := hqk
    rcases List.append_eq_append_iff.mp ht with ⟨as, hp, -⟩ | ⟨bs, hs, hbs⟩
    · exact ⟨as, hp.symm⟩
    · rcases List.eq_nil_or_concat' bs with rfl | ⟨cs, c, rfl⟩
      · rw [List.append_nil] at hs
        rw [hs]
      · have hlast : sep = c := by
          rw [← List.append_assoc] at hs
          exact List.singleton_inj.mp (List.append_inj' hs rfl).2
        exact absurd (by simp [hbs, hlast]) hname

theorem Leaf.begins (h : Leaf sep p k) : p <+: k := by
  obtain ⟨name, -, rfl⟩ := h
  exact List.prefix_append p name

theorem Leaf.unique (hp : Folder sep p) (hq : Folder sep q) (hpk : Leaf sep p k)
    (hqk : Leaf sep q k) :
    p = q := by
  have hpq := prefix_of_leaf hp hpk.begins hqk
  have hqp := prefix_of_leaf hq hqk.begins hpk
  exact hpq.eq_of_length (le_antisymm hpq.length_le hqp.length_le)

theorem Reach.folder (h : Reach sep keys q) : Folder sep q := by
  cases h with
  | root => exact .inl rfl
  | next _ _ hq => exact hq.folder

/-- The folders on the way are those that have a key below them, and the root. -/
theorem reach_iff [DecidableEq α] :
    Reach sep keys q ↔ q = [] ∨ (∃ s, q = s ++ [sep]) ∧ ∃ k ∈ keys, q <+: k := by
  constructor
  · intro h
    cases h with
    | root => exact .inl rfl
    | next _ hk hq =>
        obtain ⟨name, -, rfl, hbegins⟩ := hq
        exact .inr ⟨⟨_, rfl⟩, _, hk, hbegins⟩
  · intro h
    -- a folder is reached from the one that its name is in, which is shorter
    induction hn : q.length using Nat.strong_induction_on generalizing q with
    | _ n ih =>
        rcases h with rfl | ⟨⟨s, rfl⟩, k, hk, hbegins⟩
        · exact .root
        · obtain ⟨p, hp, name, hname, rfl⟩ := exists_leaf sep s
          have hshorter : p.length < n := by
            rw [← hn]
            simp
          have hbelow : p <+: k := by
            rw [List.append_assoc] at hbegins
            exact (List.prefix_append p _).trans hbegins
          have hreached : Reach sep keys p := by
            refine ih p.length hshorter ?_ rfl
            rcases hp with rfl | hp
            · exact .inl rfl
            · exact .inr ⟨hp, k, hk, hbelow⟩
          exact hreached.next hk ⟨name, hname, rfl, hbegins⟩

theorem existsUnique_reach [DecidableEq α] (hk : k ∈ keys) :
    ∃! p, Reach sep keys p ∧ Leaf sep p k := by
  obtain ⟨p, hp, hleaf⟩ := exists_leaf sep k
  refine ⟨p, ⟨?_, hleaf⟩, ?_⟩
  · rw [reach_iff]
    rcases hp with rfl | hp
    · exact .inl rfl
    · exact .inr ⟨hp, k, hk, hleaf.begins⟩
  · rintro q ⟨hq, hqk⟩
    exact hqk.unique hq.folder hp hleaf

/-! ### Adding a key -/

/-- A key that is put into a folder on the way opens no other folder. -/
theorem reach_insert [DecidableEq α] (hp : Reach sep keys p) (hleaf : Leaf sep p k) :
    Reach sep (insert k keys) q ↔ Reach sep keys q := by
  constructor
  · intro h
    rcases reach_iff.mp h with rfl | ⟨hq, k', hk', hbegins⟩
    · exact .root
    · rcases hk' with rfl | hk'
      · have hqp := prefix_of_leaf (.inr hq) hbegins hleaf
        rcases reach_iff.mp hp with rfl | ⟨-, k', hk', hbelow⟩
        · rw [List.prefix_nil.mp hqp]
          exact .root
        · exact reach_iff.mpr (.inr ⟨hq, k', hk', hqp.trans hbelow⟩)
      · exact reach_iff.mpr (.inr ⟨hq, k', hk', hbegins⟩)
  · intro h
    rcases reach_iff.mp h with rfl | ⟨hq, k', hk', hbegins⟩
    · exact .root
    · exact reach_iff.mpr (.inr ⟨hq, k', .inr hk', hbegins⟩)

/-! ### The folders above a folder -/

/-- The folders that a folder is in, up to the root. -/
def Above (sep : α) (q p : List α) : Prop := Folder sep q ∧ q <+: p ∧ q ≠ p

/-- The folder with these names on its way. -/
def ofNames (sep : α) (names : List (List α)) : List α := names.flatMap fun name => name ++ [sep]

@[simp] theorem ofNames_nil (sep : α) : ofNames sep [] = [] := rfl

@[simp] theorem ofNames_cons (sep : α) (name : List α) (names : List (List α)) :
    ofNames sep (name :: names) = name ++ sep :: ofNames sep names := by simp [ofNames]

theorem ofNames_append (sep : α) (names names' : List (List α)) :
    ofNames sep (names ++ names') = ofNames sep names ++ ofNames sep names' :=
      List.flatMap_append ..

section
variable {name : List α} {names : List (List α)}

/-- Above the last name are the folder it is in, and those above that one. -/
theorem above_concat_iff (h : sep ∉ name) :
    Above sep q (p ++ name ++ [sep]) ↔ Folder sep q ∧ q <+: p := by
  constructor
  · rintro ⟨hfolder, hbegins, hne⟩
    refine ⟨hfolder, ?_⟩
    rcases List.prefix_concat_iff.mp hbegins with hself | hbelow
    · exact absurd hself hne
    · exact prefix_of_leaf hfolder hbelow ⟨name, h, rfl⟩
  · rintro ⟨hfolder, hbegins⟩
    refine ⟨hfolder, hbegins.trans ⟨name ++ [sep], by simp⟩, ?_⟩
    rintro rfl
    have hlength := hbegins.length_le
    simp at hlength

theorem begins_ofNames_iff (h : ∀ name ∈ names, sep ∉ name) :
    Folder sep q ∧ q <+: ofNames sep names ↔
      ∃ i ≤ names.length, q = ofNames sep (names.take i) := by
  induction names using List.reverseRecOn with
  | nil => simp +contextual [Folder]
  | append_singleton names name ih =>
      have hname := h name (by simp)
      have hnames := ih fun n hn => h n (by simp [hn])
      have hlast : ofNames sep (names ++ [name]) = ofNames sep names ++ name ++ [sep] := by
        simp [ofNames_append]
      have hsplit : Folder sep q ∧ q <+: ofNames sep (names ++ [name]) ↔
          q = ofNames sep (names ++ [name]) ∨ Folder sep q ∧ q <+: ofNames sep names := by
        rw [hlast]
        constructor
        · rintro ⟨hfolder, hbegins⟩
          by_cases hself : q = ofNames sep names ++ name ++ [sep]
          · exact .inl hself
          · exact .inr ((above_concat_iff hname).mp ⟨hfolder, hbegins, hself⟩)
        · rintro (rfl | hbelow)
          · exact ⟨.inr ⟨_, rfl⟩, List.prefix_refl _⟩
          · obtain ⟨hfolder, hbegins, -⟩ := (above_concat_iff hname).mpr hbelow
            exact ⟨hfolder, hbegins⟩
      rw [hsplit, hnames]
      constructor
      · rintro (rfl | ⟨i, hi, rfl⟩)
        · exact ⟨names.length + 1, by simp, by rw [List.take_of_length_le (by simp)]⟩
        · exact ⟨i, by simp; omega, by rw [List.take_append_of_le_length hi]⟩
      · rintro ⟨i, hi, rfl⟩
        rw [List.length_append, List.length_singleton] at hi
        rcases Nat.lt_or_ge names.length i with hlt | hle
        · left
          rw [List.take_of_length_le (by simp; omega)]
        · right
          exact ⟨i, hle, by rw [List.take_append_of_le_length hle]⟩

theorem length_ofNames_take_lt (sep : α) {i j : ℕ} (hij : i < j) (hj : j ≤ names.length) :
    (ofNames sep (names.take i)).length < (ofNames sep (names.take j)).length := by
  have hsplit : names.take j = names.take i ++ (names.drop i).take (j - i) := by
    rw [← List.take_add]
    congr 1
    omega
  obtain ⟨name, rest, hrest⟩ : ∃ name rest, (names.drop i).take (j - i) = name :: rest := by
    apply List.exists_cons_of_ne_nil
    apply List.ne_nil_of_length_pos
    rw [List.length_take, List.length_drop]
    omega
  rw [hsplit, hrest, ofNames_append, ofNames_cons]
  simp

theorem above_ofNames_iff (h : ∀ name ∈ names, sep ∉ name) :
    Above sep q (ofNames sep names) ↔ ∃ i < names.length, q = ofNames sep (names.take i) := by
  have hself : ofNames sep names = ofNames sep (names.take names.length) := by rw [List.take_length]
  constructor
  · rintro ⟨hfolder, hbegins, hne⟩
    obtain ⟨i, hi, rfl⟩ := (begins_ofNames_iff h).mp ⟨hfolder, hbegins⟩
    refine ⟨i, lt_of_le_of_ne hi ?_, rfl⟩
    rintro rfl
    exact hne hself.symm
  · rintro ⟨i, hi, rfl⟩
    obtain ⟨hfolder, hbegins⟩ := (begins_ofNames_iff h).mpr ⟨i, hi.le, rfl⟩
    refine ⟨hfolder, hbegins, fun heq => ?_⟩
    have hlt := length_ofNames_take_lt sep hi le_rfl
    rw [← hself, heq] at hlt
    exact lt_irrefl _ hlt

/-- The root and the folders above number as many as there are names, but at least one. -/
theorem ncard_above (h : ∀ name ∈ names, sep ∉ name) :
    {q | q = [] ∨ Above sep q (ofNames sep names)}.ncard = max names.length 1 := by
  have himage : {q | q = [] ∨ Above sep q (ofNames sep names)} =
      (fun i => ofNames sep (names.take i)) '' Set.Iio (max names.length 1) := by
    ext q
    simp only [Set.mem_ofPred_eq, above_ofNames_iff h, Set.mem_image, Set.mem_Iio, lt_max_iff]
    constructor
    · rintro (rfl | ⟨i, hi, rfl⟩)
      · exact ⟨0, .inr one_pos, rfl⟩
      · exact ⟨i, .inl hi, rfl⟩
    · rintro ⟨i, hi | hi, rfl⟩
      · exact .inr ⟨i, hi, rfl⟩
      · obtain rfl := Nat.lt_one_iff.mp hi
        exact .inl rfl
  have hinj : Set.InjOn (fun i => ofNames sep (names.take i)) (Set.Iio (max names.length 1)) := by
    have hmono : StrictMonoOn (fun i => (ofNames sep (names.take i)).length)
        (Set.Iic names.length) := fun i _ j hj hij => length_ofNames_take_lt sep hij hj
    have hle : ∀ i ∈ Set.Iio (max names.length 1), i ∈ Set.Iic names.length := by
      intro i hi
      rw [Set.mem_Iio] at hi
      rw [Set.mem_Iic]
      omega
    intro i hi j hj heq
    exact hmono.injOn (hle i hi) (hle j hj) (congrArg List.length heq)
  rw [himage, hinj.ncard_image, ← Finset.coe_Iio, Set.ncard_coe_finset, Nat.card_Iio]

/-- Leaving names out leaves the folders on the way as they are only if none is left out, or if
there is but one. -/
theorem above_filter_iff (keep : List α → Bool) (h : ∀ name ∈ names, sep ∉ name) :
    (∀ q, q = [] ∨ Above sep q (ofNames sep (names.filter keep)) ↔
        q = [] ∨ Above sep q (ofNames sep names)) ↔
      names.length ≤ 1 ∨ ∀ name ∈ names, keep name := by
  have hkept : ∀ name ∈ names.filter keep, sep ∉ name :=
    fun name hname => h name (List.mem_filter.mp hname).1
  have hle := List.length_filter_le keep names
  constructor
  · intro heq
    have hcard := ncard_above hkept
    rw [Set.ext heq, ncard_above h] at hcard
    by_cases hone : names.length ≤ 1
    · exact .inl hone
    · refine .inr (List.length_filter_eq_length_iff.mp ?_)
      omega
  · rintro (hone | hall)
    · intro q
      rw [above_ofNames_iff hkept, above_ofNames_iff h]
      have hroot : ∀ names : List (List α), names.length ≤ 1 →
          (q = [] ∨ (∃ i < names.length, q = ofNames sep (names.take i)) ↔ q = []) := by
        intro names hone
        refine ⟨?_, .inl⟩
        rintro (hq | ⟨i, hi, rfl⟩)
        · exact hq
        · obtain rfl : i = 0 := by omega
          rfl
      rw [hroot _ (hle.trans hone), hroot _ hone]
    · intro q
      rw [List.filter_eq_self.mpr hall]

end

end PierGateway.KeyTrees
