import PierGateway.Api
import PierGateway.KeyTrees

/-!
# Folders of a bucket

The object browser shows a bucket one folder at a time, a prefix of its keys taken from the
URL. A page of it goes from the listing of the storage through the gateway to rows; a click on
a folder row is the next prefix, and the breadcrumb makes prefixes of its own. Every key of the
bucket is found in exactly one folder. The breadcrumb agrees with the folders as long as none on
the way has an empty name.
-/
namespace PierGateway.Spa.Folders
open GoStrings KeyTrees
open WebUI (ListObjectsOutput listObjectsResponse)

/-! ### Pages -/

structure Row where
  key : Str
  name : Str
  isPrefix : Bool
deriving DecidableEq

/-- `replace` of the first occurrence of a string by nothing. -/
def removeFirst (pattern s : Str) : Str :=
  match cutStr pattern s with
  | some (before, after) => before ++ after
  | none => s

/-- `replace(/\/$/, '')`. -/
def removeSlash (s : Str) : Str := if s.getLast? = some slash then s.dropLast else s

def fileName (key : Str) : Str :=
  let parts := split slash (removeSlash key)
  let last := parts.getLastD []
  if last = [] then key else last

/-- The rows of a page without a search: folders first. -/
def pageRows (prefixPath : Str) (objects prefixes : List Str) : List Row :=
  prefixes.map (fun p => ⟨p, removeSlash (removeFirst prefixPath p), true⟩) ++
    objects.map fun k => ⟨k, fileName k, false⟩

/-- The rows of a listing that the gateway has passed on. -/
def rowsOf (prefixPath : Str) (out : ListObjectsOutput) : List Row :=
  let resp := listObjectsResponse out
  pageRows prefixPath (resp.objects.map (·.key)) resp.prefixes

/-- What the storage lists of its keys for a prefix and the delimiter, over all pages. -/
structure Lists (keys : Set Str) (prefixPath : Str) (out : ListObjectsOutput) : Prop where
  contents : ∀ k, (∃ o ∈ out.contents, o.key = some k) ↔ k ∈ keys ∧ Leaf slash prefixPath k
  named : ∀ o ∈ out.contents, o.key.isSome
  prefixes : ∀ q, some q ∈ out.commonPrefixes ↔ ∃ k ∈ keys, Child slash prefixPath q k

/-- The folder that the page takes from `?prefix=`, after a navigation to a prefix. -/
def navigated (newPrefix : Str) : Str := (if newPrefix = [] then none else some newPrefix).getD []

@[simp] theorem navigated_eq (newPrefix : Str) : navigated newPrefix = newPrefix := by
  unfold navigated
  split_ifs with h
  · exact h.symm
  · rfl

/-- The folders that clicks on rows lead to, from the bare URL of the bucket. -/
inductive Opened (list : Str → ListObjectsOutput) : Str → Prop
  | bucket : Opened list []
  | click {p : Str} {row : Row} (h : Opened list p) (hrow : row ∈ rowsOf p (list p))
      (hfolder : row.isPrefix = true) : Opened list (navigated row.key)

variable {keys : Set Str} {p q k : Str} {out : ListObjectsOutput}
  {list : Str → ListObjectsOutput}

theorem mem_rowsOf {row : Row} : row ∈ rowsOf p out ↔
    (∃ q, some q ∈ out.commonPrefixes ∧ row = ⟨q, removeSlash (removeFirst p q), true⟩) ∨
      ∃ o ∈ out.contents, row = ⟨o.key.getD [], fileName (o.key.getD []), false⟩ := by
  unfold rowsOf pageRows listObjectsResponse
  simp [WebUI.objectResponse, eq_comm]

theorem folderRow_iff (h : Lists keys p out) :
    (∃ row ∈ rowsOf p out, row.isPrefix = true ∧ row.key = q) ↔ ∃ k ∈ keys, Child slash p q k := by
  rw [← h.prefixes]
  constructor
  · rintro ⟨row, hrow, hfolder, rfl⟩
    rcases mem_rowsOf.mp hrow with ⟨q, hq, rfl⟩ | ⟨o, -, rfl⟩
    · exact hq
    · cases hfolder
  · intro hq
    exact ⟨_, mem_rowsOf.mpr (.inl ⟨q, hq, rfl⟩), rfl, rfl⟩

theorem objectRow_iff (h : Lists keys p out) :
    (∃ row ∈ rowsOf p out, row.isPrefix = false ∧ row.key = k) ↔ k ∈ keys ∧ Leaf slash p k := by
  rw [← h.contents]
  constructor
  · rintro ⟨row, hrow, hobject, rfl⟩
    rcases mem_rowsOf.mp hrow with ⟨q, -, rfl⟩ | ⟨o, ho, rfl⟩
    · cases hobject
    · obtain ⟨k, hk⟩ := Option.isSome_iff_exists.mp (h.named o ho)
      exact ⟨o, ho, by rw [hk]; rfl⟩
  · rintro ⟨o, ho, hk⟩
    refine ⟨_, mem_rowsOf.mpr (.inr ⟨o, ho, rfl⟩), rfl, ?_⟩
    rw [hk]
    rfl

theorem opened_iff (h : ∀ p, Lists keys p (list p)) : Opened list q ↔ Reach slash keys q := by
  constructor
  · intro hopened
    induction hopened with
    | bucket => exact .root
    | click _ hrow hfolder ih =>
        obtain ⟨k, hk, hchild⟩ := (folderRow_iff (h _)).mp ⟨_, hrow, hfolder, rfl⟩
        rw [navigated_eq]
        exact ih.next hk hchild
  · intro hreach
    induction hreach with
    | root => exact .bucket
    | next _ hk hchild ih =>
        obtain ⟨row, hrow, hfolder, rfl⟩ := (folderRow_iff (h _)).mpr ⟨_, hk, hchild⟩
        rw [← navigated_eq row.key]
        exact ih.click hrow hfolder

/-! ### A storage of a few keys -/

/-- The next folder on the way to a key. -/
def childOf (p k : Str) : Option Str :=
  if p.isPrefixOf k then
    match cut slash (k.drop p.length) with
    | (name, some _) => some (p ++ name ++ [slash])
    | (_, none) => none
  else none

/-- The listing of finitely many keys. -/
def listing (keys : List Str) (p : Str) : ListObjectsOutput where
  contents :=
    (keys.filter fun k => p.isPrefixOf k ∧ slash ∉ k.drop p.length).map fun k => { key := some k }
  commonPrefixes := (keys.filterMap (childOf p)).dedup.map some

theorem childOf_eq_some_iff {p q k : Str} : childOf p k = some q ↔ Child slash p q k := by
  unfold childOf
  constructor
  · intro h
    split_ifs at h with hbegins
    obtain ⟨t, rfl⟩ := List.isPrefixOf_iff_prefix.mp hbegins
    rw [List.drop_left] at h
    rcases cut_cases slash t with ⟨-, hcut⟩ | ⟨name, rest, hname, rfl, hcut⟩
    · rw [hcut] at h
      cases h
    · rw [hcut] at h
      obtain rfl := Option.some.inj h
      exact ⟨name, hname, rfl, rest, by simp⟩
  · rintro ⟨name, hname, rfl, t, rfl⟩
    have hbegins : p.isPrefixOf (p ++ name ++ [slash] ++ t) = true := by
      rw [List.isPrefixOf_iff_prefix]
      exact ⟨name ++ [slash] ++ t, by simp⟩
    have hdrop : (p ++ name ++ [slash] ++ t).drop p.length = name ++ slash :: t := by simp
    rw [if_pos hbegins, hdrop, cut_append slash hname]

theorem leaf_iff_drop {p k : Str} :
    Leaf slash p k ↔ p.isPrefixOf k = true ∧ slash ∉ k.drop p.length := by
  rw [List.isPrefixOf_iff_prefix]
  constructor
  · rintro ⟨name, hname, rfl⟩
    exact ⟨List.prefix_append p name, by rwa [List.drop_left]⟩
  · rintro ⟨⟨t, rfl⟩, ht⟩
    rw [List.drop_left] at ht
    exact ⟨t, ht, rfl⟩

theorem lists_listing (keys : List Str) (p : Str) : Lists { k | k ∈ keys } p (listing keys p) := by
  constructor
  · intro k
    rw [leaf_iff_drop]
    simp [listing]
  · intro o ho
    obtain ⟨k, -, rfl⟩ := List.mem_map.mp ho
    rfl
  · intro q
    simp only [← childOf_eq_some_iff]
    simp [listing]

/-- A folder with its own object, a file and a folder without a name in it. -/
def reportKeys : List Str := [str "reports/", str "reports/may", str "reports//x"]

theorem opened_reports : Opened (listing reportKeys) (str "reports/") := by
  rw [opened_iff (lists_listing reportKeys), reach_iff]
  exact .inr ⟨⟨str "reports", by decide⟩, str "reports/", List.mem_cons_self, List.prefix_refl _⟩

/-- Clicks lead to the root and to the folders that have a key below them, and every key of the
bucket has its row in exactly one of these. -/
theorem every_key_found (h : ∀ p, Lists keys p (list p)) :
    (∀ q, Opened list q ↔ q = [] ∨ (∃ s, q = s ++ [slash]) ∧ ∃ k ∈ keys, q <+: k) ∧
      ∀ k ∈ keys, ∃! p, Opened list p ∧ ∃ row ∈ rowsOf p (list p), row.isPrefix = false ∧
          row.key = k := by
  constructor
  · intro q
    rw [opened_iff h, reach_iff]
  · intro k hk
    have hfound : ∃! p, Reach slash keys p ∧ Leaf slash p k := existsUnique_reach hk
    obtain ⟨p, ⟨hreach, hleaf⟩, hunique⟩ := hfound
    refine ⟨p, ⟨(opened_iff h).mpr hreach, (objectRow_iff (h p)).mpr ⟨hk, hleaf⟩⟩, ?_⟩
    rintro q ⟨hopened, hrow⟩
    exact hunique q ⟨(opened_iff h).mp hopened, ((objectRow_iff (h q)).mp hrow).2⟩

theorem every_key_found_reports : ∃! p, Opened (listing reportKeys) p ∧
    ∃ row ∈ rowsOf p (listing reportKeys p), row.isPrefix = false ∧ row.key = str "reports//x" :=
  (every_key_found (lists_listing reportKeys)).2 _ (by decide)

/-! ### Names -/

theorem removeFirst_append (p t : Str) : removeFirst p (p ++ t) = t := by
  have hcut : cutStr p (p ++ t) = some ([], t) := by
    cases p with
    | nil =>
        cases t with
        | nil => rfl
        | cons c t => rfl
    | cons c p =>
        have hbegins : (c :: p).isPrefixOf (c :: (p ++ t)) = true := by
          rw [List.isPrefixOf_iff_prefix]
          exact List.prefix_append (c :: p) t
        have hdrop : (c :: (p ++ t)).drop (c :: p).length = t := List.drop_left
        rw [List.cons_append, cutStr, if_pos hbegins, hdrop]
  unfold removeFirst
  rw [hcut]
  rfl

theorem removeSlash_concat (s : Str) : removeSlash (s ++ [slash]) = s := by
  unfold removeSlash
  rw [if_pos List.getLast?_concat, List.dropLast_concat]

theorem removeSlash_name {p name : Str} (hname : slash ∉ name) (hne : name ≠ []) :
    removeSlash (p ++ name) = p ++ name := by
  unfold removeSlash
  apply if_neg
  rw [List.getLast?_append_of_ne_nil _ hne]
  intro hlast
  exact hname (List.mem_of_getLast? hlast)

theorem getLastD_split {p name : Str} (hp : Folder slash p) (hname : slash ∉ name) :
    (split slash (p ++ name)).getLastD [] = name := by
  rcases hp with rfl | ⟨s, rfl⟩
  · rw [List.nil_append, split_of_not_mem slash hname]
    rfl
  · rw [List.append_assoc, List.singleton_append, split_append_cons, split_of_not_mem slash hname,
      List.getLastD_eq_getLast?, List.getLast?_concat]
    rfl

theorem fileName_leaf {p name : Str} (hp : Folder slash p) (hname : slash ∉ name)
    (hne : name ≠ []) :
    fileName (p ++ name) = name := by
  unfold fileName
  dsimp only
  rw [removeSlash_name hname hne, getLastD_split hp hname, if_neg hne]

/-- The key of a row is its folder and its name, unless it is the object that stands for the
folder itself. -/
theorem row_named (hp : Folder slash p) (h : Lists keys p out) {row : Row}
    (hrow : row ∈ rowsOf p out) :
    row.isPrefix = false ∧ row.key = p ∨
      slash ∉ row.name ∧ row.key = p ++ row.name ++ if row.isPrefix then [slash] else [] := by
  rcases mem_rowsOf.mp hrow with ⟨q, hq, rfl⟩ | ⟨o, ho, rfl⟩
  · obtain ⟨k, -, name, hname, rfl, -⟩ := (h.prefixes q).mp hq
    have heq : removeSlash (removeFirst p (p ++ name ++ [slash])) = name := by
      rw [List.append_assoc, removeFirst_append, removeSlash_concat]
    dsimp only
    rw [heq]
    exact .inr ⟨hname, rfl⟩
  · obtain ⟨k, hk⟩ := Option.isSome_iff_exists.mp (h.named o ho)
    obtain ⟨-, name, hname, rfl⟩ := (h.contents k).mp ⟨o, ho, hk⟩
    rw [hk, Option.getD_some]
    by_cases hne : name = []
    · exact .inl ⟨rfl, by rw [hne, List.append_nil]⟩
    · dsimp only
      rw [fileName_leaf hp hname hne]
      exact .inr ⟨hname, by simp⟩

/-- The key of a row is its folder and its name, and rows of one kind with one name are the same;
the object that stands for the folder itself is the exception to both. -/
theorem rows_told_apart (h : ∀ p, Lists keys p (list p)) (hp : Opened list p) :
    (∀ row ∈ rowsOf p (list p), row.isPrefix = false ∧ row.key = p ∨
      slash ∉ row.name ∧ row.key = p ++ row.name ++ if row.isPrefix then [slash] else []) ∧
    ∀ row ∈ rowsOf p (list p), ∀ row' ∈ rowsOf p (list p), row.key ≠ p → row'.key ≠ p →
      row.isPrefix = row'.isPrefix → row.name = row'.name → row = row' := by
  have hfolder := ((opened_iff h).mp hp).folder
  constructor
  · intro row hrow
    exact row_named hfolder (h p) hrow
  · intro row hrow row' hrow' hne hne' hkind hname
    have hkey := ((row_named hfolder (h p) hrow).resolve_left fun hself => hne hself.2).2
    have hkey' := ((row_named hfolder (h p) hrow').resolve_left fun hself => hne' hself.2).2
    obtain ⟨k, name, isPrefix⟩ := row
    obtain ⟨k', name', isPrefix'⟩ := row'
    dsimp only at hkind hname hkey hkey'
    rw [hkey, hkey', hkind, hname]

def mayRow : Row := ⟨str "reports/may", str "may", false⟩

theorem mayRow_mem : mayRow ∈ rowsOf (str "reports/") (listing reportKeys (str "reports/")) := by
  have hname : fileName (str "reports/may") = str "may" :=
    fileName_leaf (p := str "reports/") (.inr ⟨str "reports", by decide⟩) (by decide) (by decide)
  obtain ⟨o, ho, hkey⟩ :=
    ((lists_listing reportKeys (str "reports/")).contents (str "reports/may")).mpr
    ⟨by decide, str "may", by decide, by decide⟩
  refine mem_rowsOf.mpr (.inr ⟨o, ho, ?_⟩)
  rw [hkey, Option.getD_some, hname]
  rfl

theorem rows_told_apart_reports :
    (mayRow.isPrefix = false ∧ mayRow.key = str "reports/" ∨
      slash ∉ mayRow.name ∧ mayRow.key = str "reports/" ++ mayRow.name ++ []) ∧
    ∀ row ∈ rowsOf (str "reports/") (listing reportKeys (str "reports/")),
      row.key ≠ str "reports/" →
      row.isPrefix = false → row.name = str "may" → row = mayRow := by
  obtain ⟨hkeys, hsame⟩ := rows_told_apart (lists_listing reportKeys) opened_reports
  exact ⟨hkeys mayRow mayRow_mem, fun row hrow hne hkind hname =>
    hsame row hrow mayRow mayRow_mem hne (by decide) hkind hname⟩

/-! ### The breadcrumb -/

/-- An entry of the breadcrumb and the prefix that it leads to; the last one leads nowhere. -/
structure Crumb where
  title : Str
  target : Option Str

/-- The bucket and the parts of the prefix, behind the link to all buckets. -/
def crumbs (bucket prefixPath : Str) : List Crumb :=
  let parts := (split slash prefixPath).filter (· ≠ [])
  ⟨bucket, some []⟩ :: parts.mapIdx fun i part =>
    { title := part
      target :=
        if i = parts.length - 1 then none else some (join slash (parts.take (i + 1)) ++ [slash]) }

/-- The breadcrumb has a link to the folder. -/
def LeadsTo (bucket prefixPath q : Str) : Prop :=
  ∃ crumb ∈ crumbs bucket prefixPath, crumb.target = some q

theorem join_concat {names : List Str} (h : names ≠ []) :
    join slash names ++ [slash] = ofNames slash names := by
  induction names with
  | nil => exact absurd rfl h
  | cons name names ih =>
      cases names with
      | nil => simp [join]
      | cons name' names =>
          rw [join_cons_cons, ofNames_cons, ← ih (by simp)]
          simp

/-- The names on the way to a folder. -/
theorem folder_split (hp : Folder slash p) :
    split slash p = (split slash p).dropLast ++ [[]] ∧
      p = ofNames slash (split slash p).dropLast := by
  rcases hp with rfl | ⟨s, rfl⟩
  · exact ⟨rfl, rfl⟩
  · have hsplit : split slash (s ++ [slash]) = split slash s ++ [[]] := by
      rw [split_append_cons, split_nil]
    rw [hsplit, List.dropLast_concat, ← join_concat (split_ne_nil slash s), join_split]
    exact ⟨rfl, rfl⟩

theorem slash_not_mem_names : ∀ name ∈ (split slash p).dropLast, slash ∉ name :=
  fun _ hname => not_mem_of_mem_split (List.mem_of_mem_dropLast hname)

/-- The links are the root and the folders above the one that has only the names that are not
empty. -/
theorem leadsTo_iff (hp : Folder slash p) (bucket : Str) :
    LeadsTo bucket p q ↔
      q = [] ∨ Above slash q (ofNames slash ((split slash p).dropLast.filter (· ≠ []))) := by
  have hparts : (split slash p).filter (· ≠ []) = (split slash p).dropLast.filter (· ≠ []) := by
    conv_lhs => rw [(folder_split hp).1]
    simp
  have hfree : ∀ name ∈ (split slash p).dropLast.filter (· ≠ []), slash ∉ name :=
    fun name hname => slash_not_mem_names name (List.mem_filter.mp hname).1
  rw [above_ofNames_iff hfree]
  unfold LeadsTo crumbs
  dsimp only
  rw [hparts]
  generalize (split slash p).dropLast.filter (· ≠ []) = parts
  have htarget : ∀ i < parts.length,
      join slash (parts.take (i + 1)) ++ [slash] = ofNames slash (parts.take (i + 1)) := by
    intro i hi
    apply join_concat
    apply List.ne_nil_of_length_pos
    rw [List.length_take]
    omega
  constructor
  · rintro ⟨crumb, hcrumb, hq⟩
    rcases List.mem_cons.mp hcrumb with rfl | hcrumb
    · exact .inl (Option.some.inj hq).symm
    · obtain ⟨i, hi, rfl⟩ := List.mem_mapIdx.mp hcrumb
      dsimp only at hq
      split_ifs at hq with hlast
      refine .inr ⟨i + 1, by omega, ?_⟩
      rw [← htarget i hi]
      exact (Option.some.inj hq).symm
  · rintro (rfl | ⟨i, hi, rfl⟩)
    · exact ⟨_, List.mem_cons_self, rfl⟩
    · cases i with
      | zero => exact ⟨_, List.mem_cons_self, rfl⟩
      | succ i =>
          have hlt : i < parts.length := by omega
          refine ⟨_, List.mem_cons_of_mem _ (List.mem_mapIdx.mpr ⟨i, hlt, rfl⟩), ?_⟩
          dsimp only
          rw [if_neg (by omega), htarget i hlt]

/-- With one name on the way no link is missing, not even if it is empty. -/
theorem one_name_or_all_iff (hp : Folder slash p) :
    (split slash p).dropLast.length ≤ 1 ∨ (∀ name ∈ (split slash p).dropLast, name ≠ []) ↔
      p = [slash] ∨ ∀ name ∈ (split slash p).dropLast, name ≠ [] := by
  constructor
  · rintro (hone | hall)
    · have hnames := (folder_split hp).2
      rcases hparts : (split slash p).dropLast with _ | ⟨name, _ | ⟨name', names⟩⟩
      · exact .inr (by simp)
      · by_cases hempty : name = []
        · rw [hparts, hempty] at hnames
          exact .inl hnames
        · exact .inr (by simpa using hempty)
      · rw [hparts] at hone
        simp at hone
    · exact .inr hall
  · rintro (rfl | hall)
    · exact .inl (by decide)
    · exact .inr hall

/-- In every folder the links of the breadcrumb lead to the root and to the folders above it, and
to no others, if and only if no name on the way is empty or the folder is `/`; these folders can
all be opened. -/
theorem crumbs_lead_up_iff (h : ∀ p, Lists keys p (list p)) (hp : Opened list p) (bucket : Str) :
    ((∀ q, LeadsTo bucket p q ↔ q = [] ∨ Above slash q p) ↔
        p = [slash] ∨ ∀ name ∈ (split slash p).dropLast, name ≠ []) ∧
      ∀ q, Above slash q p → Opened list q := by
  have hreach := (opened_iff h).mp hp
  have hfolder := hreach.folder
  constructor
  · have hnames : ∀ q, Above slash q p ↔
        Above slash q (ofNames slash (split slash p).dropLast) := by
      intro q
      rw [← (folder_split hfolder).2]
    simp only [leadsTo_iff hfolder, hnames]
    rw [above_filter_iff _ slash_not_mem_names, ← one_name_or_all_iff hfolder]
    simp
  · rintro q ⟨hq, hbegins, -⟩
    rw [opened_iff h, reach_iff]
    rcases hq with rfl | hq
    · exact .inl rfl
    · rcases reach_iff.mp hreach with rfl | ⟨-, k, hk, hbelow⟩
      · exact .inl (List.prefix_nil.mp hbegins)
      · exact .inr ⟨hq, k, hk, hbegins.trans hbelow⟩

theorem opened_nameless : Opened (listing reportKeys) (str "reports//") := by
  rw [opened_iff (lists_listing reportKeys), reach_iff]
  exact .inr ⟨⟨str "reports/", by decide⟩, str "reports//x", by decide, by decide⟩

/-- From the folder without a name there is no link to the one that it is in. -/
theorem crumbs_lead_up_iff_reports :
    (∀ q, LeadsTo (str "team") (str "reports/") q ↔ q = [] ∨ Above slash q (str "reports/")) ∧
      ¬∀ q, LeadsTo (str "team") (str "reports//") q ↔
        q = [] ∨ Above slash q (str "reports//") := by
  have hreports := (crumbs_lead_up_iff (lists_listing reportKeys) opened_reports (str "team")).1
  have hnameless := (crumbs_lead_up_iff (lists_listing reportKeys) opened_nameless (str "team")).1
  constructor
  · exact hreports.mpr (.inr (by decide))
  · intro hall
    exact absurd (hnameless.mp hall) (by decide)

end PierGateway.Spa.Folders
