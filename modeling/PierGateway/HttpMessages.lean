import Mathlib.Data.Finmap
import PierGateway.UrlLaws

/-!
# Requests, responses and header maps of `net/http`

A header map is a finite map from canonical field names to lists of values, with
no order on its keys: Go does not order them either. The canonical form of the
keys is part of the type, because that is what the server's reader produces and
what `Set`, `Add` and `Del` maintain. Cookies and comma-separated token lists
are read off such a map.
-/
namespace PierGateway.HttpMessages
open GoStrings NetUrl UrlLaws

/-- `validHeaderFieldByte`: the bytes of an HTTP token. -/
def tokenByte (c : UInt8) : Bool := isAlnum c || c ∈ str "!#$%&'*+-.^_`|~"

def upperByte (c : UInt8) : UInt8 := if 0x61 ≤ c ∧ c ≤ 0x7A then c - 0x20 else c

/-- The first letter and every letter after a hyphen become capitals. -/
def canonicalAux : Bool → Str → Str
  | _, [] => []
  | upper, c :: s => (if upper then upperByte c else lowerByte c) :: canonicalAux (c = hyphen) s

/-- `textproto.CanonicalMIMEHeaderKey`. -/
def canonicalKey (s : Str) : Str := if s.all tokenByte then canonicalAux true s else s

theorem caseByte_idem (c : UInt8) :
    upperByte (upperByte c) = upperByte c ∧ lowerByte (lowerByte c) = lowerByte c := by
  unfold upperByte lowerByte
  constructor
  · grind
  · grind

theorem tokenByte_caseByte (c : UInt8) :
    tokenByte (upperByte c) = tokenByte c ∧ tokenByte (lowerByte c) = tokenByte c := by
  simp only [tokenByte, isAlnum, isAlpha, isDigit, upperByte, lowerByte]
  simp [str]
  grind

theorem caseByte_hyphen (c : UInt8) :
    (upperByte c = hyphen ↔ c = hyphen) ∧ (lowerByte c = hyphen ↔ c = hyphen) := by
  unfold upperByte lowerByte
  grind

theorem canonicalAux_idem (upper : Bool) (s : Str) :
    canonicalAux upper (canonicalAux upper s) = canonicalAux upper s := by
  induction s generalizing upper with
  | nil => rfl
  | cons c s ih =>
      cases upper with
      | false => simp [canonicalAux, (caseByte_idem c).2, (caseByte_hyphen c).2, ih]
      | true => simp [canonicalAux, (caseByte_idem c).1, (caseByte_hyphen c).1, ih]

theorem all_tokenByte_canonicalAux (upper : Bool) (s : Str) :
    (canonicalAux upper s).all tokenByte = s.all tokenByte := by
  induction s generalizing upper with
  | nil => rfl
  | cons c s ih =>
      have h := tokenByte_caseByte c
      cases upper with
      | false => simp [canonicalAux, h.2, ih]
      | true => simp [canonicalAux, h.1, ih]

@[simp] theorem canonicalKey_idem (s : Str) : canonicalKey (canonicalKey s) = canonicalKey s := by
  unfold canonicalKey
  split_ifs with h h'
  · exact canonicalAux_idem true s
  · exact absurd ((all_tokenByte_canonicalAux true s).trans h) h'
  · rfl

/-! ### Header maps -/

/-- An `http.Header` with canonical keys. -/
@[ext] structure Header where
  fields : Finmap fun _ : Str => List Str
  canonical : ∀ k ∈ fields, canonicalKey k = k

namespace Header

instance : DecidableEq Header := fun a b =>
  decidable_of_iff (a.fields = b.fields) Header.ext_iff.symm

def empty : Header := ⟨∅, fun _ hk => absurd hk Finmap.notMem_empty⟩

/-- `h[k]`, for a key that is written in canonical form. -/
def lookup (h : Header) (k : Str) : Option (List Str) := h.fields.lookup k

/-- `h.Values(k)`. -/
def values (h : Header) (k : Str) : List Str := (h.lookup (canonicalKey k)).getD []

/-- `h.Get(k)`: the first value or the empty string. -/
def get (h : Header) (k : Str) : Str := (h.values k).headD []

def del (h : Header) (k : Str) : Header where
  fields := h.fields.erase (canonicalKey k)
  canonical k' hk' := h.canonical k' (Finmap.mem_erase.mp hk').2

def insert (h : Header) (k : Str) (vs : List Str) : Header where
  fields := h.fields.insert (canonicalKey k) vs
  canonical k' hk' := by
    rcases Finmap.mem_insert.mp hk' with rfl | hk'
    · exact canonicalKey_idem k
    · exact h.canonical k' hk'

def set (h : Header) (k v : Str) : Header := h.insert k [v]

def add (h : Header) (k v : Str) : Header := h.insert k (h.values k ++ [v])

/-- The header map a reader builds from the field lines of a message. -/
def ofLines (lines : List (Str × Str)) : Header :=
  lines.foldl (fun h line => h.add line.1 line.2) empty

/-- The field is present, with any number of values. -/
def Has (h : Header) (k : Str) : Prop := k ∈ h.fields

instance (h : Header) (k : Str) : Decidable (h.Has k) :=
  inferInstanceAs (Decidable (k ∈ h.fields))

theorem has_iff {h : Header} {k : Str} : h.Has k ↔ ∃ vs, h.lookup k = some vs := by
  rw [Has, lookup, ← Option.isSome_iff_exists, Finmap.lookup_isSome]

theorem ext_lookup {h h' : Header} (hk : ∀ k, h.lookup k = h'.lookup k) : h = h' :=
  Header.ext (Finmap.ext_lookup hk)

@[simp] theorem lookup_empty (k : Str) : empty.lookup k = none := Finmap.lookup_empty k

theorem lookup_del (h : Header) (k k' : Str) :
    (h.del k).lookup k' = if k' = canonicalKey k then none else h.lookup k' := by
  unfold lookup del
  split_ifs with hk
  · rw [hk]
    exact Finmap.lookup_erase _ _
  · exact Finmap.lookup_erase_ne hk

theorem lookup_insert (h : Header) (k : Str) (vs : List Str) (k' : Str) :
    (h.insert k vs).lookup k' = if k' = canonicalKey k then some vs else h.lookup k' := by
  unfold lookup insert
  split_ifs with hk
  · rw [hk]
    exact Finmap.lookup_insert _
  · exact Finmap.lookup_insert_of_ne _ hk

/-- Deleting a list of fields one after the other. -/
def delAll (h : Header) (ks : List Str) : Header := ks.foldl del h

theorem lookup_delAll (h : Header) (ks : List Str) (k' : Str) :
    (h.delAll ks).lookup k' = if k' ∈ ks.map canonicalKey then none else h.lookup k' := by
  induction ks generalizing h with
  | nil => simp [delAll]
  | cons k ks ih =>
      have hstep : h.delAll (k :: ks) = (h.del k).delAll ks := rfl
      rw [hstep, ih, lookup_del]
      by_cases h₁ : k' = canonicalKey k
      · simp [h₁]
      · simp [h₁]

theorem values_congr {h h' : Header} {k : Str} (hk : h.lookup (canonicalKey k) =
    h'.lookup (canonicalKey k)) : h.values k = h'.values k := by
  rw [values, values, hk]

end Header

/-! ### Token lists and cookies -/

/-- `trimOWS`. -/
def trimOWS (s : Str) : Str :=
  (s.dropWhile fun c => c = space || c = 0x09).rdropWhile fun c => c = space || c = 0x09

/-- `textproto.TrimString`. -/
def trimString (s : Str) : Str :=
  let blank := fun c : UInt8 => c ∈ [0x20, 0x09, 0x0A, 0x0D]
  (s.dropWhile blank).rdropWhile blank

/-- `httpguts.HeaderValuesContainsToken`. -/
def headerValuesContainsToken (values : List Str) (token : Str) : Bool :=
  values.any fun v => (split comma v).any fun t => lowerAscii (trimOWS t) = lowerAscii token

def validCookieValueByte (c : UInt8) : Bool :=
  0x20 ≤ c && c < 0x7F && c ≠ 0x22 && c ≠ semicolon && c ≠ 0x5C

def parseCookieValue (raw : Str) : Option Str :=
  let inner :=
    if 1 < raw.length ∧ raw.head? = some 0x22 ∧ raw.getLast? = some 0x22
    then (raw.drop 1).dropLast else raw
  if inner.all validCookieValueByte then some inner else none

/-- One `;`-separated part of a `Cookie` line. -/
def cookiePart (part : Str) : Option (Str × Str) :=
  let name := trimString (cut equals (trimString part)).1
  if name ≠ [] ∧ name.all tokenByte then
    (parseCookieValue ((cut equals (trimString part)).2.getD [])).map fun v => (name, v)
  else none

/-- `readCookies`: a line is trimmed and read up to its end; empty parts are skipped. -/
def readCookies (h : Header) : List (Str × Str) :=
  (h.values (str "Cookie")).flatMap fun line =>
    (split semicolon (trimString line)).filterMap cookiePart

/-! ### Messages -/

structure Request where
  method : Str
  url : URL
  header : Header
  host : Str := []
  body : Str := []
  contentLength : ℤ := 0
deriving DecidableEq

/-- `r.Cookie(name)`. -/
def Request.cookie (r : Request) (name : Str) : Option Str := (readCookies r.header).lookup name

/-- The URL a server makes of a request target; the target of `CONNECT` may be a bare
authority. -/
def requestURL (method target : Str) : Option URL :=
  if method = str "CONNECT" ∧ ¬hasPrefix target [slash] then
    (parseRequestURI (str "http://" ++ target)).map fun u => { u with scheme := [] }
  else parseRequestURI target

theorem fromRequestLine_of_requestURL {method target : Str} {u : URL}
    (h : requestURL method target = some u) : FromRequestLine u := by
  unfold requestURL at h
  split_ifs at h
  · obtain ⟨v, hv, rfl⟩ := Option.map_eq_some_iff.mp h
    have hline := fromRequestLine_of_parse hv
    exact ⟨hline.opaque_path, hline.raw, hline.path, hline.star, hline.ctl⟩
  · exact fromRequestLine_of_parse h

theorem requestURL_path {p t : Str} (method : Str) (hhead : p.head? = some slash)
    (hv : validEncoded p = true) (hu : unescape .path p = some t) :
    ∃ u, requestURL method p = some u ∧ u.path = t ∧ u.escapedPath = p ∧ u.rawQuery = [] := by
  have hslash : hasPrefix p [slash] = true := by
    cases p with
    | nil => cases hhead
    | cons c s =>
        obtain rfl : c = slash := by simpa using hhead
        simp [hasPrefix]
  unfold requestURL
  rw [if_neg (by simp [hslash])]
  exact parseRequestURI_path hhead hv hu

structure Response where
  status : ℕ
  header : Header
  body : Str
deriving DecidableEq

end PierGateway.HttpMessages
