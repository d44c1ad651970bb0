import Mathlib.Data.List.DropRight
import PierGateway.Csv
import PierGateway.GoUnicode

/-!
# Kinds of previews

Which renderer a file is shown with follows from what stands behind the last dot of its
name and, if that says nothing, from its media type. The table of extensions is an object
literal, and reading a property of one also finds the names every object inherits. Lower
case lets two of those through: a file whose extension is one of them has no kind.
-/
namespace PierGateway.Preview
open GoStrings GoUnicode
open Csv (Text)

inductive PreviewKind where
  | image
  | svg
  | video
  | audio
  | text
  | markdown
  | csv
  | json
  | pdf
  | unsupported
deriving DecidableEq

/-- A string of ASCII characters as code units. -/
def ascii (s : String) : Text := s.toList.map fun c => UInt16.ofNat c.toNat

abbrev slash : UInt16 := 0x2F
abbrev dot : UInt16 := 0x2E
abbrev semicolon : UInt16 := 0x3B

/-! ### Lower case -/

/-- The code points of a string, a lone surrogate standing for itself. -/
def codePoints : Text → List ℕ
  | [] => []
  | [u] => [u.toNat]
  | u :: v :: rest =>
      if (0xD800 ≤ u ∧ u < 0xDC00) ∧ 0xDC00 ≤ v ∧ v < 0xE000 then
        (0x10000 + (u.toNat - 0xD800) * 0x400 + (v.toNat - 0xDC00)) :: codePoints rest
      else u.toNat :: codePoints (v :: rest)

def codeUnits (v : ℕ) : Text :=
  if v < 0x10000 then [UInt16.ofNat v]
  else
    [UInt16.ofNat (0xD800 + (v - 0x10000) / 0x400 % 0x400),
      UInt16.ofNat (0xDC00 + (v - 0x10000) % 0x400)]

/-- The lower case of a code point, which for one letter takes two of them and for sigma depends on
whether it ends a word. -/
def lowerCodePoint (final : Bool) (v : ℕ) : List ℕ :=
  if v = 0x130 then [0x69, 0x307]
  else if v = 0x3A3 ∧ final then [0x3C2]
  else [toLowerRune v]

/-- Lower case from a position on, `before` being what stands in front of it in reverse. -/
def lowerFrom (finalSigma : List ℕ → List ℕ → Bool) : List ℕ → List ℕ → List ℕ
  | _, [] => []
  | before, v :: after =>
      lowerCodePoint (finalSigma before after) v ++ lowerFrom finalSigma (v :: before) after

/-- `toLowerCase`. When a sigma ends a word is up to a rule of Unicode that looks at the letters
around it, and is left open. -/
def toLowerCase (finalSigma : List ℕ → List ℕ → Bool) (s : Text) : Text :=
  (lowerFrom finalSigma [] (codePoints s)).flatMap codeUnits

/-! ### The extension -/

def ofKind (k : PreviewKind) (names : List String) : List (Text × PreviewKind) :=
  names.map fun name => (ascii name, k)

/-- The table's own entries. -/
def extKind : List (Text × PreviewKind) :=
  ofKind .image ["png", "jpg", "jpeg", "gif", "webp", "avif", "bmp", "ico"] ++
  ofKind .svg ["svg"] ++
  ofKind .video ["mp4", "webm", "ogv", "mov", "m4v"] ++
  ofKind .audio ["mp3", "wav", "oga", "ogg", "flac", "m4a", "aac"] ++
  ofKind .pdf ["pdf"] ++
  ofKind .markdown ["md", "markdown"] ++
  ofKind .csv ["csv", "tsv"] ++
  ofKind .json ["json"] ++
  ofKind .text ["txt", "yaml", "yml", "log", "xml", "html", "htm", "css", "js", "mjs", "cjs", "ts",
    "tsx", "jsx", "go", "py", "rb", "rs", "java", "kt", "c", "h", "cpp", "hpp", "sh", "bash", "zsh",
    "sql", "toml", "ini", "conf", "cfg", "env", "properties", "dockerfile", "gitignore"]

/-- The names every object literal inherits. -/
def objectPrototype : List Text :=
  ["constructor", "__defineGetter__", "__defineSetter__", "hasOwnProperty", "__lookupGetter__",
    "__lookupSetter__", "isPrototypeOf", "propertyIsEnumerable", "toString", "valueOf", "__proto__",
    "toLocaleString"].map ascii

/-- What is read from the table: a kind, or a function or an object that has none. -/
inductive Value where
  | kind (k : PreviewKind)
  | inherited (name : Text)
deriving DecidableEq

/-- `EXT_KIND[name]`, none being `undefined`; no other value is falsy. -/
def readExtKind (name : Text) : Option Value :=
  match extKind.lookup name with
  | some k => some (.kind k)
  | none => if name ∈ objectPrototype then some (.inherited name) else none

/-- What stands behind the last separator: everything, if there is none. -/
def afterLast (sep : UInt16) (s : Text) : Text := s.rtakeWhile fun c => c ≠ sep

def extOf (finalSigma : List ℕ → List ℕ → Bool) (key : Text) : Text :=
  afterLast dot (afterLast slash ((toLowerCase finalSigma key).rdropWhile fun c => c = slash))

/-! ### The media type -/

/-- The white space that `trim` takes away. -/
def isWhiteSpace (c : UInt16) : Bool :=
  (0x09 ≤ c && c ≤ 0x0D) || c = 0x20 || c = 0xA0 || c = 0x1680 || (0x2000 ≤ c && c ≤ 0x200A) ||
    c = 0x2028 || c = 0x2029 || c = 0x202F || c = 0x205F || c = 0x3000 || c = 0xFEFF

def trim (s : Text) : Text := (s.dropWhile isWhiteSpace).rdropWhile isWhiteSpace

def mediaType (finalSigma : List ℕ → List ℕ → Bool) (contentType : Option Text) : Text :=
  trim ((toLowerCase finalSigma (contentType.getD [])).takeWhile fun c => c ≠ semicolon)

/-- The fallback of `previewKindFor`. -/
def contentKind (ct : Text) : PreviewKind :=
  if ct = ascii "image/svg+xml" then .svg
  else if ascii "image/" <+: ct then .image
  else if ascii "video/" <+: ct then .video
  else if ascii "audio/" <+: ct then .audio
  else if ct = ascii "application/pdf" then .pdf
  else if ct = ascii "text/markdown" then .markdown
  else if ct = ascii "text/csv" ∨ ct = ascii "text/tab-separated-values" then .csv
  else if ct = ascii "application/json" then .json
  else if ascii "text/" <+: ct then .text
  else .unsupported

def previewKindFor (finalSigma : List ℕ → List ℕ → Bool) (key : Text) (contentType : Option Text) :
    Value :=
  match readExtKind (extOf finalSigma key) with
  | some byExt => byExt
  | none => .kind (contentKind (mediaType finalSigma contentType))

/-! ### The last part of a string -/

/-- The part stands behind the last separator of the string, or is all of it. -/
def BehindLast (sep : UInt16) (s part : Text) : Prop :=
  sep ∉ part ∧ (s = part ∨ ∃ front, s = front ++ sep :: part)

theorem behindLast_afterLast (sep : UInt16) (s : Text) : BehindLast sep s (afterLast sep s) := by
  have hsplit : (s.rdropWhile fun c => c ≠ sep) ++ afterLast sep s = s :=
    List.rdropWhile_append_rtakeWhile
  constructor
  · intro hmem
    simpa using List.mem_rtakeWhile_imp hmem
  · by_cases hnil : (s.rdropWhile fun c => c ≠ sep) = []
    · left
      rw [hnil] at hsplit
      exact hsplit.symm
    · right
      have hlast : (s.rdropWhile fun c => c ≠ sep).getLast hnil = sep := by
        simpa using List.rdropWhile_last_not _ _ hnil
      have hfront := List.dropLast_append_getLast hnil
      rw [hlast] at hfront
      refine ⟨(s.rdropWhile fun c => c ≠ sep).dropLast, ?_⟩
      rw [List.append_cons, hfront, hsplit]

theorem BehindLast.afterLast_eq {sep : UInt16} {s part : Text} (h : BehindLast sep s part) :
    afterLast sep s = part := by
  obtain ⟨hsep, rfl | ⟨front, rfl⟩⟩ := h
  · refine List.rtakeWhile_eq_self_iff.mpr fun c hc => ?_
    simpa using ne_of_mem_of_not_mem hc hsep
  · have hpart : ∀ c ∈ part.reverse, (decide (c ≠ sep)) = true := by
      intro c hc
      simpa using ne_of_mem_of_not_mem (List.mem_reverse.mp hc) hsep
    unfold afterLast List.rtakeWhile
    rw [List.reverse_append, List.reverse_cons, List.append_assoc,
      List.takeWhile_append_of_pos hpart]
    simp

/-- The extension of a name in lower case: the part behind the last dot of its last segment,
whatever slashes follow it. -/
def Extension (lowered e : Text) : Prop :=
  ∃ path slashes base, lowered = path ++ slashes ∧ (∀ c ∈ slashes, c = slash) ∧
    (∀ front, path ≠ front ++ [slash]) ∧ BehindLast slash path base ∧ BehindLast dot base e

theorem rdropWhile_slash_eq {path slashes : Text} (hslashes : ∀ c ∈ slashes, c = slash)
    (hpath : ∀ front, path ≠ front ++ [slash]) :
    ((path ++ slashes).rdropWhile fun c => c = slash) = path := by
  have hall : ∀ c ∈ slashes.reverse, (decide (c = slash)) = true := by
    intro c hc
    simpa using hslashes c (List.mem_reverse.mp hc)
  have hself : (path.rdropWhile fun c => c = slash) = path := by
    rw [List.rdropWhile_eq_self_iff]
    intro hne hlast
    apply hpath path.dropLast
    have hslash : path.getLast hne = slash := by simpa using hlast
    rw [← hslash, List.dropLast_append_getLast]
  rw [List.rdropWhile, List.reverse_append, List.dropWhile_append_of_pos hall]
  exact hself

variable {finalSigma : List ℕ → List ℕ → Bool} {key : Text}

theorem extension_iff {e : Text} :
    Extension (toLowerCase finalSigma key) e ↔ extOf finalSigma key = e := by
  constructor
  · rintro ⟨path, slashes, base, hkey, hslashes, hpath, hbase, he⟩
    rw [extOf, hkey, rdropWhile_slash_eq hslashes hpath, hbase.afterLast_eq, he.afterLast_eq]
  · rintro rfl
    refine ⟨_, (toLowerCase finalSigma key).rtakeWhile fun c => c = slash, _,
      List.rdropWhile_append_rtakeWhile.symm, ?_, ?_, behindLast_afterLast _ _,
        behindLast_afterLast _ _⟩
    · intro c hc
      simpa using List.mem_rtakeWhile_imp hc
    · intro front hfront
      have hnil : ((toLowerCase finalSigma key).rdropWhile fun c => c = slash) ≠ [] := by
        rw [hfront]
        simp
      have hlast := List.rdropWhile_last_not _ _ hnil
      simp [hfront] at hlast

/-! ### Inherited names -/

/-- An upper-case letter of ASCII. -/
def IsUpper (v : ℕ) : Prop := 0x41 ≤ v ∧ v ≤ 0x5A

/-- No run of letters has its lower case among the upper-case letters. -/
theorem lowerRuns_not_upper :
    (lowerRuns.all fun t => 0x80 ≤ t.1 && (t.2.1 + t.2.2.2 < 0x41 || 0x5A < t.1 + t.2.2.2)) =
      true := by
  decide

theorem toLowerRune_not_upper (v : ℕ) : ¬IsUpper (toLowerRune v) := by
  unfold toLowerRune IsUpper
  split_ifs with hascii hupper
  · omega
  · omega
  · split
    next t hfind =>
      have ht := List.all_eq_true.mp lowerRuns_not_upper t (List.mem_of_find?_eq_some hfind)
      have hrun := List.find?_some hfind
      simp only [Bool.and_eq_true, Bool.or_eq_true, decide_eq_true_eq] at ht hrun
      omega
    · omega

theorem lowerCodePoint_not_upper {final : Bool} {v w : ℕ} (h : w ∈ lowerCodePoint final v) :
    ¬IsUpper w := by
  unfold lowerCodePoint at h
  split_ifs at h
  · unfold IsUpper
    rcases List.mem_pair.mp h with rfl | rfl <;> omega
  · unfold IsUpper
    rw [List.mem_singleton] at h
    omega
  · rw [List.mem_singleton.mp h]
    exact toLowerRune_not_upper v

theorem lowerFrom_not_upper {before after : List ℕ} {w : ℕ}
    (h : w ∈ lowerFrom finalSigma before after) : ¬IsUpper w := by
  induction after generalizing before with
  | nil => exact absurd h List.not_mem_nil
  | cons v after ih =>
      rcases List.mem_append.mp h with h | h
      · exact lowerCodePoint_not_upper h
      · exact ih h

theorem codeUnits_not_upper {w : ℕ} (hw : ¬IsUpper w) {c : UInt16} (h : c ∈ codeUnits w) :
    ¬IsUpper c.toNat := by
  unfold IsUpper at hw ⊢
  unfold codeUnits at h
  split_ifs at h
  · rw [List.mem_singleton.mp h, UInt16.toNat_ofNat']
    omega
  · rcases List.mem_pair.mp h with rfl | rfl
    · rw [UInt16.toNat_ofNat']
      omega
    · rw [UInt16.toNat_ofNat']
      omega

theorem toLowerCase_not_upper {s : Text} {c : UInt16}
    (h : c ∈ toLowerCase finalSigma s) : ¬IsUpper c.toNat := by
  obtain ⟨w, hw, hc⟩ := List.mem_flatMap.mp h
  exact codeUnits_not_upper (lowerFrom_not_upper hw) hc

theorem mem_of_mem_extOf {c : UInt16}
    (h : c ∈ extOf finalSigma key) : c ∈ toLowerCase finalSigma key := by
  have hsegment := (List.rtakeWhile_suffix _ _).mem h
  have hpath := (List.rtakeWhile_suffix _ _).mem hsegment
  exact (List.rdropWhile_prefix _ _).mem hpath

instance (v : ℕ) : Decidable (IsUpper v) := inferInstanceAs (Decidable (_ ∧ _))

theorem objectPrototype_upper :
    (objectPrototype.all fun name =>
      name = ascii "constructor" || name = ascii "__proto__" ||
        name.any fun c => IsUpper c.toNat) = true := by
  decide +kernel

theorem extOf_mem_objectPrototype :
    extOf finalSigma key ∈ objectPrototype ↔
      extOf finalSigma key = ascii "constructor" ∨ extOf finalSigma key = ascii "__proto__" := by
  constructor
  · intro hmem
    have hname := List.all_eq_true.mp objectPrototype_upper _ hmem
    simp only [Bool.or_eq_true, decide_eq_true_eq, List.any_eq_true] at hname
    refine hname.resolve_right ?_
    rintro ⟨c, hc, hupper⟩
    exact toLowerCase_not_upper (mem_of_mem_extOf hc) hupper
  · rintro (hname | hname)
    · rw [hname]
      decide
    · rw [hname]
      decide

/-! ### The law of classification -/

/-- A file's kind: the table's own entry for its extension, and else what its media type says. -/
def Lawful (finalSigma : List ℕ → List ℕ → Bool) (key : Text) (contentType : Option Text) : Prop :=
  ∀ e, Extension (toLowerCase finalSigma key) e →
    previewKindFor finalSigma key contentType =
      .kind ((extKind.lookup e).getD (contentKind (mediaType finalSigma contentType)))

theorem lookup_objectPrototype :
    (objectPrototype.all fun name => extKind.lookup name = none) = true := by
  decide +kernel

/-- A file whose extension is an inherited name gets no kind. -/
theorem previewKindFor_inherited
    (h : extOf finalSigma key ∈ objectPrototype) (contentType : Option Text) :
    previewKindFor finalSigma key contentType = .inherited (extOf finalSigma key) := by
  have hlookup := List.all_eq_true.mp lookup_objectPrototype _ h
  rw [decide_eq_true_eq] at hlookup
  simp [previewKindFor, readExtKind, hlookup, h]

theorem previewKindFor_of_not_inherited
    (h : extOf finalSigma key ∉ objectPrototype) (contentType : Option Text) :
    previewKindFor finalSigma key contentType =
      .kind ((extKind.lookup (extOf finalSigma key)).getD
        (contentKind (mediaType finalSigma contentType))) := by
  unfold previewKindFor readExtKind
  cases hlookup : extKind.lookup (extOf finalSigma key) with
  | some k => rfl
  | none => simp [h]

theorem not_lawful_of_inherited
    (h : extOf finalSigma key ∈ objectPrototype) (contentType : Option Text) :
    ¬Lawful finalSigma key contentType := by
  intro hlawful
  have hkind := hlawful _ (extension_iff.mpr rfl)
  rw [previewKindFor_inherited h] at hkind
  cases hkind

/-- A file is classified by the law exactly when its extension is not one of two inherited names. -/
theorem lawful_iff (finalSigma : List ℕ → List ℕ → Bool) (key : Text) (contentType : Option Text) :
    Lawful finalSigma key contentType ↔
      extOf finalSigma key ≠ ascii "constructor" ∧ extOf finalSigma key ≠ ascii "__proto__" := by
  rw [← not_or, ← extOf_mem_objectPrototype]
  constructor
  · intro hlawful hmem
    exact not_lawful_of_inherited hmem contentType hlawful
  · intro hmem e he
    rw [← extension_iff.mp he]
    exact previewKindFor_of_not_inherited hmem contentType

/-- A file named `constructor`. -/
theorem not_always_lawful :
    ¬∃ finalSigma : List ℕ → List ℕ → Bool,
      ∀ (key : Text) (contentType : Option Text), Lawful finalSigma key contentType := by
  rintro ⟨finalSigma, hall⟩
  have hcodes : codePoints (ascii "constructor") =
      [99, 111, 110, 115, 116, 114, 117, 99, 116, 111, 114] := by
    decide
  have hlower : toLowerCase finalSigma (ascii "constructor") = ascii "constructor" := by
    rw [toLowerCase, hcodes]
    simp [lowerFrom, lowerCodePoint, toLowerRune]
    decide
  have hext : extOf finalSigma (ascii "constructor") = ascii "constructor" := by
    rw [extOf, hlower]
    decide
  have hmem : extOf finalSigma (ascii "constructor") ∈ objectPrototype := by
    rw [hext]
    decide
  exact not_lawful_of_inherited hmem none (hall _ none)

end PierGateway.Preview
