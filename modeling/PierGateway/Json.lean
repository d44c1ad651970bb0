import PierGateway.GoUnicode

/-!
# JSON values and their encoding

Token claims are read as JSON values and every error body is written as one. An
object is the list of its fields, read by `lookup`, so a repeated name is shadowed
by its first occurrence. Encoding follows `json.Encoder` with HTML escaping on.
-/
namespace PierGateway
open GoStrings GoUnicode

inductive Json where
  | null
  | bool (b : Bool)
  | number (text : Str)
  | string (s : Str)
  | array (items : List Json)
  | object (fields : List (Str × Json))

namespace Json

def lowerHex (n : UInt8) : UInt8 := if n < 10 then 0x30 + n else 0x61 + (n - 10)

/-- The ASCII bytes that stand for themselves inside a JSON string. -/
def safeByte (c : UInt8) : Bool :=
  0x20 ≤ c && c < 0x80 && c ∉ str "\"\\<>&"

def escapeAscii (c : UInt8) : Str :=
  if safeByte c then [c]
  else if c = 0x22 || c = 0x5C then [0x5C, c]
  else if c = 0x08 then str "\\b"
  else if c = 0x0C then str "\\f"
  else if c = 0x0A then str "\\n"
  else if c = 0x0D then str "\\r"
  else if c = 0x09 then str "\\t"
  else str "\\u00" ++ [lowerHex (c / 16), lowerHex (c % 16)]

def escapeRune (r : Rune) : Str :=
  match r.bytes with
  | [c] => if c < 0x80 then escapeAscii c else str "\\ufffd"
  | bytes =>
      if r.value = 0x2028 then str "\\u2028"
      else if r.value = 0x2029 then str "\\u2029"
      else bytes

def quote (s : Str) : Str := [0x22] ++ (runes s).flatMap escapeRune ++ [0x22]

mutual
def encode : Json → Str
  | .null => str "null"
  | .bool b => if b then str "true" else str "false"
  | .number text => text
  | .string s => quote s
  | .array items => str "[" ++ encodeItems items ++ str "]"
  | .object fields => str "\x7b" ++ encodeFields fields ++ str "\x7d"

def encodeItems : List Json → Str
  | [] => []
  | [v] => encode v
  | v :: vs => encode v ++ comma :: encodeItems vs

def encodeFields : List (Str × Json) → Str
  | [] => []
  | [(k, v)] => quote k ++ colon :: encode v
  | (k, v) :: fs => quote k ++ colon :: encode v ++ comma :: encodeFields fs
end

/-- What `json.NewEncoder(w).Encode(v)` writes. -/
def line (v : Json) : Str := encode v ++ [0x0A]

end Json
end PierGateway
