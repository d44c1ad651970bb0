import PierGateway.Binary64
import PierGateway.GoStrings

/-!
# Floating-point literals

`strconv.ParseFloat` for 64 bits. A text is first read as the number that it denotes,
decimal or hexadecimal, which is a rational, or as one of the special values; the
number is then rounded once. A literal that rounds past the largest finite value is an
error, the special values are not.
-/
namespace PierGateway.Binary64
open GoStrings

abbrev underscore : UInt8 := 0x5F

/-- `lower`. -/
def lower (c : UInt8) : UInt8 := c ||| 0x20

def digitByte (hex : Bool) (c : UInt8) : Bool :=
  isDigit c || (hex && 0x61 ≤ lower c && lower c ≤ 0x66)

def digitValue (c : UInt8) : ℕ := if isDigit c then c.toNat - 0x30 else (lower c).toNat - 0x61 + 10

/-- The number that digits denote, separators left out. -/
def digitsValue (base : ℕ) (digits : Str) : ℕ :=
  (digits.filter (· ≠ underscore)).foldl (fun acc c => acc * base + digitValue c) 0

/-- The digits, separators and the first point at the front of a text. -/
def mantissa (hex : Bool) : Bool → Str → Str × Str
  | _, [] => ([], [])
  | sawdot, c :: s =>
      if c = underscore || digitByte hex c || (c = dot && !sawdot) then
        (c :: (mantissa hex (sawdot || c = dot) s).1, (mantissa hex (sawdot || c = dot) s).2)
      else ([], c :: s)

/-- What `underscoreOK` saw last. -/
inductive Saw where
  | start | digit | separator | other
deriving DecidableEq

def underscoresFrom (hex : Bool) : Saw → Str → Bool
  | saw, [] => saw ≠ .separator
  | saw, c :: s =>
      if digitByte hex c then underscoresFrom hex .digit s
      else if c = underscore then saw = .digit && underscoresFrom hex .separator s
      else saw ≠ .separator && underscoresFrom hex .other s

def hexPrefix (s : Str) : Bool := s.head? = some 0x30 && (s.drop 1).head?.map lower = some 0x78

/-- `underscoreOK`, behind the sign: a separator stands between digits, or between a base prefix
and a digit. -/
def underscoreOK (s : Str) : Bool :=
  let base := (s.drop 1).head?.map lower
  if s.head? = some 0x30 && (base = some 0x62 || base = some 0x6F || base = some 0x78) then
    underscoresFrom (base = some 0x78) .digit (s.drop 2)
  else underscoresFrom false .start s

def signed (negative : Bool) (q : ℚ) : ℚ := if negative then -q else q

/-- Everything behind the mantissa must be an exponent; a hexadecimal literal has one. -/
def readExponent (hex : Bool) : Str → Option ℤ
  | [] => if hex then none else some 0
  | c :: s =>
      if lower c = if hex then 0x70 else 0x65 then
        let digits := if s.head? = some plus ∨ s.head? = some hyphen then s.drop 1 else s
        if digits.head?.any isDigit && digits.all fun c => isDigit c || c = underscore then
          let n : ℤ := digitsValue 10 digits
          some (if s.head? = some hyphen then -n else n)
        else none
      else none

/-- `readFloat` behind the sign. -/
def readUnsigned (s : Str) : Option ℚ :=
  let hex := hexPrefix s && 2 < s.length
  let base := if hex then 16 else 10
  let parts := mantissa hex false (if hex then s.drop 2 else s)
  let whole := (cut dot parts.1).1
  let fraction := ((cut dot parts.1).2.getD []).filter (· ≠ underscore)
  if !parts.1.any (digitByte hex) || (underscore ∈ s && !underscoreOK s) then none
  else
    (readExponent hex parts.2).map fun e =>
      (digitsValue base (whole ++ fraction) : ℚ) / base ^ fraction.length *
        (if hex then 2 else 10) ^ e

inductive Literal where
  | finite (q : ℚ)
  | infinite (negative : Bool)
  | nan
deriving DecidableEq

/-- What a text denotes. -/
def readLiteral (s : Str) : Option Literal :=
  let negative : Bool := s.head? = some hyphen
  let unsigned := if s.head? = some plus ∨ s.head? = some hyphen then s.drop 1 else s
  if lowerAscii unsigned = str "inf" ∨ lowerAscii unsigned = str "infinity" then
    some (.infinite negative)
  else if lowerAscii s = str "nan" then some .nan
  else (readUnsigned unsigned).map fun q => .finite (signed negative q)

/-- A value of the format; the sign of a zero is not kept. -/
inductive Float64 where
  | finite (q : ℚ)
  | infinite (negative : Bool)
  | nan
deriving DecidableEq

/-- The first power of two past the format. -/
def overflowBound : ℚ := 2 ^ 1024

def ofRat (q : ℚ) : Float64 :=
  if overflowBound ≤ |nearest q| then .infinite (q < 0) else .finite (nearest q)

/-- `strconv.ParseFloat(s, 64)`. -/
def parseFloat (s : Str) : Option Float64 :=
  match readLiteral s with
  | none => none
  | some (.infinite negative) => some (.infinite negative)
  | some .nan => some .nan
  | some (.finite q) => if overflowBound ≤ |nearest q| then none else some (.finite (nearest q))

/-- The product with a positive integer. -/
def Float64.mulNat : Float64 → ℕ → Float64
  | .finite q, n => ofRat (q * n)
  | .infinite negative, _ => .infinite negative
  | .nan, _ => .nan

/-- The comparison with zero. -/
def Float64.isNegative : Float64 → Bool
  | .finite q => q < 0
  | .infinite negative => negative
  | .nan => false

end PierGateway.Binary64
