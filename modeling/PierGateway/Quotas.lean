import PierGateway.FloatLiterals
import PierGateway.RuneLaws
import PierGateway.Settings

/-!
# Quotas

`parseByteSize` and `ParseBucketQuotas`. A size is a floating-point literal and a
unit; the product goes through a conversion to `int64`, which Go leaves to the
implementation where the value does not fit. The map of quotas is a list of pairs
with the last assignment in front.
-/
namespace PierGateway.Settings
open GoStrings GoUnicode Binary64

/-! ### Sizes -/

def quotaUnits : List (Str × ℕ) :=
  [(str "", 1), (str "B", 1), (str "KB", 2 ^ 10), (str "KIB", 2 ^ 10), (str "MB", 2 ^ 20),
    (str "MIB", 2 ^ 20), (str "GB", 2 ^ 30), (str "GIB", 2 ^ 30), (str "TB", 2 ^ 40),
    (str "TIB", 2 ^ 40)]

inductive SizeError where
  | unknownUnit (unit : Str)
  | invalid (s : Str)

def SizeError.message (f : Formatting) : SizeError → Str
  | .unknownUnit unit => str "unknown size unit " ++ f.quote unit
  | .invalid s => str "invalid size " ++ f.quote s

def maxInt64 : ℤ := 2 ^ 63 - 1

/-- What an implementation makes of a floating-point value that is out of range. -/
structure Platform where
  outOfRange : Float64 → ℤ
  int64 : ∀ x, -2 ^ 63 ≤ outOfRange x ∧ outOfRange x ≤ maxInt64

def truncate (q : ℚ) : ℤ := if 0 ≤ q then ⌊q⌋ else ⌈q⌉

/-- The conversion `int64(x)`. -/
def toInt64 (p : Platform) (x : Float64) : ℤ :=
  match x with
  | .finite q => if -2 ^ 63 ≤ truncate q ∧ truncate q ≤ maxInt64 then truncate q else p.outOfRange x
  | _ => p.outOfRange x

/-- The number and the unit of a size, in capitals. -/
def sizeParts (s : Str) : Str × Str :=
  let upper := toUpper (trimSpace s)
  let num := upper.rdropWhile (· ∈ str "BKMGIT")
  (trimSpace num, trimSpace (upper.drop num.length))

def parseByteSize (p : Platform) (s : Str) : Except SizeError ℤ :=
  match quotaUnits.lookup (sizeParts s).2 with
  | none => .error (.unknownUnit (sizeParts s).2)
  | some mult =>
      match parseFloat (sizeParts s).1 with
      | none => .error (.invalid s)
      | some value =>
          if value.isNegative then .error (.invalid s) else .ok (toInt64 p (value.mulNat mult))

/-! ### The list of quotas -/

inductive QuotaError where
  | malformed (pair : Str)
  | size (pair : Str) (cause : SizeError)

def QuotaError.message (f : Formatting) : QuotaError → Str
  | .malformed pair =>
      str "BUCKET_QUOTAS: malformed entry " ++ f.quote pair ++ str " (want <bucket>=<size>)"
  | .size pair cause => str "BUCKET_QUOTAS: entry " ++ f.quote pair ++ str ": " ++ cause.message f

/-- The name and the size of one entry. -/
def parsePair (p : Platform) (pair : Str) : Except QuotaError (Str × ℤ) :=
  let name := trimSpace (cut equals pair).1
  match (cut equals pair).2 with
  | none => .error (.malformed pair)
  | some sizeStr =>
      if name = [] ∨ trimSpace sizeStr = [] then .error (.malformed pair)
      else
        match parseByteSize p (trimSpace sizeStr) with
        | .ok bytes => .ok (name, bytes)
        | .error cause => .error (.size pair cause)

/-- One turn of the loop over the entries. -/
def addQuota (p : Platform) (quotas : List (Str × ℤ)) (pair : Str) :
    Except QuotaError (List (Str × ℤ)) :=
  if trimSpace pair = [] then .ok quotas
  else (parsePair p (trimSpace pair)).map fun entry => entry :: quotas

def parseBucketQuotas (p : Platform) (bucketQuotasRaw : Str) :
    Except QuotaError (List (Str × ℤ)) :=
  let raw := trimSpace bucketQuotasRaw
  if raw = [] then .ok [] else (split comma raw).foldlM (addQuota p) []

end PierGateway.Settings
