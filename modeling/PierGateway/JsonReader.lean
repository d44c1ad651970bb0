import PierGateway.Json
import PierGateway.NetUrl

/-!
# Reading JSON text

The reader of `encoding/json`, in the two passes of a scanner. The first cuts the
text into tokens, one byte at a time; the second puts the tokens together with a
stack of the open arrays and objects. A text is read whole or not at all. The fields
of an object are kept with the last one in front, so that `lookup` finds the one that
a map of Go would hold.
-/
namespace PierGateway.Json
open GoStrings GoUnicode NetUrl

/-! ### Strings -/

/-- A byte of a string that stands for itself, or a UTF-16 unit that was written in digits. -/
inductive Piece where
  | byte (c : UInt8)
  | unit (u : ℕ)

def simpleEscape (e : UInt8) : Option UInt8 :=
  if e ∈ str "\"\\/" then some e
  else if e = 0x62 then some 0x08
  else if e = 0x66 then some 0x0C
  else if e = 0x6E then some 0x0A
  else if e = 0x72 then some 0x0D
  else if e = 0x74 then some 0x09
  else none

/-- `getu4`. -/
def hex4 (digits : Str) : Option ℕ :=
  if digits.all isHex then some (digits.foldl (fun acc c => acc * 16 + (unhex c).toNat) 0) else none

/-- What stands between the quotes, with its escapes read. -/
def pieces : Str → Option (List Piece)
  | [] => some []
  | c :: s =>
      if c ≠ 0x5C then
        if c < 0x20 then none else (pieces s).map (.byte c :: ·)
      else
        match s with
        | 0x75 :: h₁ :: h₂ :: h₃ :: h₄ :: t =>
            (hex4 [h₁, h₂, h₃, h₄]).bind fun u => (pieces t).map (.unit u :: ·)
        | e :: t => (simpleEscape e).bind fun b => (pieces t).map (.byte b :: ·)
        | [] => none

def highSurrogate (u : ℕ) : Bool := 0xD800 ≤ u && u < 0xDC00
def lowSurrogate (u : ℕ) : Bool := 0xDC00 ≤ u && u < 0xE000

/-- The bytes of the pieces; a surrogate that is not half of a pair becomes U+FFFD. -/
def pieceBytes : List Piece → Str
  | [] => []
  | .byte c :: ps => c :: pieceBytes ps
  | .unit u :: .unit v :: ps =>
      if highSurrogate u && lowSurrogate v then
        encodeRune (0x10000 + (u - 0xD800) * 0x400 + (v - 0xDC00)) ++ pieceBytes ps
      else if highSurrogate u || lowSurrogate u then
        encodeRune runeError ++ pieceBytes (.unit v :: ps)
      else encodeRune u ++ pieceBytes (.unit v :: ps)
  | .unit u :: ps =>
      if highSurrogate u || lowSurrogate u then encodeRune runeError ++ pieceBytes ps
      else encodeRune u ++ pieceBytes ps

/-- `unquoteBytes`: bytes that are not UTF-8 become U+FFFD as well. -/
def unquote (raw : Str) : Option Str :=
  (pieces raw).map fun ps => (runes (pieceBytes ps)).flatMap fun r => encodeRune r.value

/-! ### Tokens -/

inductive Token where
  | scalar (v : Json)
  | openArray
  | closeArray
  | openObject
  | closeObject
  | colon
  | comma

/-- Where the scanner stands: between tokens, in a run of letters and digits, or in a
string, with the bytes behind it in reverse. -/
inductive Scanning where
  | between
  | word (seen : Str)
  | text (seen : Str) (escaped : Bool)

def blank (c : UInt8) : Bool := c ∈ [0x20, 0x09, 0x0D, 0x0A]

def punctuation (c : UInt8) : Option Token :=
  if c = 0x5B then some .openArray
  else if c = 0x5D then some .closeArray
  else if c = 0x7B then some .openObject
  else if c = 0x7D then some .closeObject
  else if c = 0x3A then some .colon
  else if c = 0x2C then some .comma
  else none

/-- An exponent, or nothing. -/
def validExponent (s : Str) : Bool :=
  match s with
  | [] => true
  | e :: t =>
      let digits := if t.head? = some plus ∨ t.head? = some hyphen then t.drop 1 else t
      (e = 0x65 || e = 0x45) && digits ≠ [] && digits.all isDigit

/-- The numbers of RFC 8259: no leading zero, digits on both sides of a point. -/
def validNumber (s : Str) : Bool :=
  let unsigned := if s.head? = some hyphen then s.drop 1 else s
  let whole := unsigned.takeWhile isDigit
  let rest := unsigned.dropWhile isDigit
  whole ≠ [] && (whole.head? ≠ some 0x30 || whole = [0x30]) &&
    if rest.head? = some dot then
      (rest.drop 1).takeWhile isDigit ≠ [] && validExponent ((rest.drop 1).dropWhile isDigit)
    else validExponent rest

def word (s : Str) : Option Token :=
  if s = str "null" then some (.scalar .null)
  else if s = str "true" then some (.scalar (.bool true))
  else if s = str "false" then some (.scalar (.bool false))
  else if validNumber s then some (.scalar (.number s))
  else none

/-- A byte that is in no token begun before it. -/
def scanBetween (c : UInt8) : Scanning × List Token :=
  if blank c then (.between, [])
  else if c = 0x22 then (.text [] false, [])
  else
    match punctuation c with
    | some t => (.between, [t])
    | none => (.word [c], [])

def scan : Scanning → UInt8 → Option (Scanning × List Token)
  | .between, c => some (scanBetween c)
  | .word seen, c =>
      if isAlnum c || c ∈ str "+-." then some (.word (c :: seen), [])
      else (word seen.reverse).map fun t => ((scanBetween c).1, t :: (scanBetween c).2)
  | .text seen true, c => some (.text (c :: seen) false, [])
  | .text seen false, c =>
      if c = 0x5C then some (.text (c :: seen) true, [])
      else if c = 0x22 then (unquote seen.reverse).map fun s => (.between, [.scalar (.string s)])
      else some (.text (c :: seen) false, [])

/-- The tokens that the end of the text completes. -/
def scanEnd : Scanning → Option (List Token)
  | .between => some []
  | .word seen => (word seen.reverse).map fun t => [t]
  | .text _ _ => none

def scanAll : Scanning → Str → Option (List Token)
  | m, [] => scanEnd m
  | m, c :: s => (scan m c).bind fun r => (scanAll r.1 s).map (r.2 ++ ·)

def tokens (s : Str) : Option (List Token) := scanAll .between s

/-! ### Values -/

/-- An array or object that is still open, with what it holds so far, the last in front. -/
inductive Frame where
  | items (read : List Json)
  | fields (read : List (Str × Json))
  | field (read : List (Str × Json)) (key : Str)

/-- What the next token must be, or the value that was just read. -/
inductive Expecting where
  | value
  | itemOrEnd
  | keyOrEnd
  | key
  | colon
  | after (v : Json)

/-- `maxNestingDepth`. -/
def maxNestingDepth : ℕ := 10000

def enter (next : Expecting) (frame : Frame) (stack : List Frame) :
    Option (Expecting × List Frame) :=
  if stack.length < maxNestingDepth then some (next, frame :: stack) else none

def beginValue (stack : List Frame) : Token → Option (Expecting × List Frame)
  | .scalar v => some (.after v, stack)
  | .openArray => enter .itemOrEnd (.items []) stack
  | .openObject => enter .keyOrEnd (.fields []) stack
  | _ => none

def beginKey : List Frame → Token → Option (Expecting × List Frame)
  | .fields read :: stack, .scalar (.string key) => some (.colon, .field read key :: stack)
  | _, _ => none

def endValue (v : Json) : List Frame → Token → Option (Expecting × List Frame)
  | .items read :: stack, .comma => some (.value, .items (v :: read) :: stack)
  | .items read :: stack, .closeArray => some (.after (.array (v :: read).reverse), stack)
  | .field read key :: stack, .comma => some (.key, .fields ((key, v) :: read) :: stack)
  | .field read key :: stack, .closeObject => some (.after (.object ((key, v) :: read)), stack)
  | _, _ => none

/-- One token, read with the stack of what is open around it. -/
def shift : Expecting × List Frame → Token → Option (Expecting × List Frame)
  | (.value, stack), t => beginValue stack t
  | (.itemOrEnd, .items _ :: stack), .closeArray => some (.after (.array []), stack)
  | (.itemOrEnd, stack), t => beginValue stack t
  | (.keyOrEnd, .fields _ :: stack), .closeObject => some (.after (.object []), stack)
  | (.keyOrEnd, stack), t => beginKey stack t
  | (.key, stack), t => beginKey stack t
  | (.colon, stack), .colon => some (.value, stack)
  | (.colon, _), _ => none
  | (.after v, stack), t => endValue v stack t

def shiftAll (state : Expecting × List Frame) (ts : List Token) : Option (Expecting × List Frame) :=
  ts.foldlM shift state

/-- The value of a text that holds one value and nothing else but blanks. -/
def read (s : Str) : Option Json :=
  (tokens s).bind fun ts =>
    match shiftAll (.value, []) ts with
    | some (.after v, []) => some v
    | _ => none

/-! ### What is read -/

theorem shiftAll_append (state : Expecting × List Frame) (ts ts' : List Token) :
    shiftAll state (ts ++ ts') = (shiftAll state ts).bind fun state => shiftAll state ts' :=
  List.foldlM_append ..

theorem shiftAll_cons (state : Expecting × List Frame) (t : Token) (ts : List Token) :
    shiftAll state (t :: ts) = (shift state t).bind fun state => shiftAll state ts :=
  List.foldlM_cons ..

theorem read_eq_some_iff {s : Str} {v : Json} :
    read s = some v ↔ ∃ ts, tokens s = some ts ∧
      shiftAll (.value, []) ts = some (.after v, []) := by
  unfold read
  rw [Option.bind_eq_some_iff]
  refine exists_congr fun ts => and_congr_right fun _ => ?_
  constructor
  · intro h
    split at h
    · next v' hshift => rw [hshift, Option.some.inj h]
    · cases h
  · intro h
    rw [h]

/-! ### Into a structure -/

/-- A key names a field whatever the case of its letters. -/
def names (key name : Str) : Bool := equalFold key name

/-- `json.Unmarshal` into a structure: the fields are stored in the order of the text, `null`
stores nothing, and anything but an object cannot be stored. A field that cannot be stored
fails the whole. -/
def unmarshal {σ : Type} (store : σ → Str → Json → Option σ) (zero : σ) : Json → Option σ
  | .null => some zero
  | .object fields => fields.foldr (fun f t => t.bind fun t => store t f.1 f.2) (some zero)
  | _ => none

def storeString (old : Str) : Json → Option Str
  | .string s => some s
  | .null => some old
  | _ => none

/-- The last field with the name that is not null holds this string. -/
inductive Holds (name s : Str) : List (Str × Json) → Prop
  | last {key : Str} {fields : List (Str × Json)} (h : names key name = true) :
      Holds name s ((key, .string s) :: fields)
  | null {key : Str} {fields : List (Str × Json)} (h : names key name = true)
      (hs : Holds name s fields) : Holds name s ((key, .null) :: fields)
  | other {f : Str × Json} {fields : List (Str × Json)} (h : names f.1 name = false)
      (hs : Holds name s fields) : Holds name s (f :: fields)

/-- The value is an object that gives the named field this string. -/
def Gives (name s : Str) (v : Json) : Prop := ∃ fields, v = .object fields ∧ Holds name s fields

section
variable {σ : Type} {store : σ → Str → Json → Option σ} {zero : σ} (get : σ → Str) (name : Str)

/-- A string field of the structure ends up with what the text gives it, and keeps its
initial value where the text gives it nothing. -/
theorem holds_of_unmarshal
    (hnamed : ∀ t t' key v, names key name = true → store t key v = some t' →
      storeString (get t) v = some (get t'))
    (hother : ∀ t t' key v, names key name = false → store t key v = some t' → get t' = get t)
    {fields : List (Str × Json)} {t : σ} (h : unmarshal store zero (.object fields) = some t) :
    (∀ s, Holds name s fields → get t = s) ∧ (get t = get zero ∨ Holds name (get t) fields) := by
  induction fields generalizing t with
  | nil =>
      obtain rfl := Option.some.inj h
      exact ⟨fun s hs => (by cases hs), .inl rfl⟩
  | cons f fields ih =>
      obtain ⟨key, v⟩ := f
      obtain ⟨t₀, h₀, hstore⟩ := Option.bind_eq_some_iff.mp h
      have hih := ih h₀
      cases hn : names key name with
      | false =>
          have hget := hother t₀ t key v hn hstore
          refine ⟨fun s hs => ?_, ?_⟩
          · cases hs with
            | last hn' | null hn' => exact absurd (hn.symm.trans hn') Bool.false_ne_true
            | other _ hs => exact hget.trans (hih.1 s hs)
          · rw [hget]
            exact hih.2.imp_right (.other hn)
      | true =>
          have hget := hnamed t₀ t key v hn hstore
          have hnot : ¬names key name = false := by simp [hn]
          cases v with
          | string s' =>
              have hs' : s' = get t := Option.some.inj hget
              refine ⟨fun s hs => ?_, .inr (hs' ▸ .last hn)⟩
              cases hs with
              | last => exact hs'.symm
              | other hn' => exact absurd hn' hnot
          | null =>
              have hkept : get t₀ = get t := Option.some.inj hget
              refine ⟨fun s hs => ?_, ?_⟩
              · cases hs with
                | null _ hs => exact hkept.symm.trans (hih.1 s hs)
                | other hn' => exact absurd hn' hnot
              · rw [← hkept]
                exact hih.2.imp_right (.null hn)
          | bool | number | array | object => cases hget

end

end PierGateway.Json
