import PierGateway.GoStrings

/-!
# `net/url`: escaping, parsing and query strings

The escaping table, the URL parser in its two uses (`Parse` for a URL reference,
`ParseRequestURI` for what an HTTP server reads from a request line) and the
query-string codec. The parser reports failure without a reason, because no
caller looks at one.

`parse` takes `viaRequest` as the package does. The two uses differ in one point
that matters later: only `urlParse` cuts its argument at the first `#`.
-/
namespace PierGateway.NetUrl
open GoStrings

/-- The part of a URL an escaping decision is made for. -/
inductive Encoding where
  | path | pathSegment | host | zone | userPassword | queryComponent | fragment
deriving DecidableEq, Repr

def isHex (c : UInt8) : Bool :=
  isDigit c || (0x61 ≤ c && c ≤ 0x66) || (0x41 ≤ c && c ≤ 0x46)

def unhex (c : UInt8) : UInt8 :=
  if isDigit c then c - 0x30
  else if 0x61 ≤ c && c ≤ 0x66 then c - 0x61 + 10
  else if 0x41 ≤ c && c ≤ 0x46 then c - 0x41 + 10
  else 0

def upperHex (n : UInt8) : UInt8 := if n < 10 then 0x30 + n else 0x41 + (n - 10)

def shouldEscape (c : UInt8) (mode : Encoding) : Bool :=
  if isAlnum c then false
  else if (mode = .host || mode = .zone) && c ∈ str "!$&'()*+,;=:[]<>\"" then false
  else if c ∈ str "-_.~" then false
  else if c ∈ str "$&+,/:;=?@" then
    match mode with
    | .path => c = question
    | .pathSegment => c ∈ str "/;,?"
    | .userPassword => c ∈ str "@/?:"
    | .queryComponent => true
    | .fragment => false
    | .host | .zone => true
  else if mode = .fragment && c ∈ str "!()*" then false
  else true

/-- The escapes a host or a zone may contain besides being well formed. -/
def escapeAllowed (mode : Encoding) (a b : UInt8) : Bool :=
  match mode with
  | .host => !(unhex a < 8 && !(a = 0x32 && b = 0x35))
  | .zone =>
      let v := unhex a * 16 + unhex b
      (a = 0x32 && b = 0x35) || v = space || !shouldEscape v .host
  | _ => true

def unescape (mode : Encoding) : Str → Option Str
  | [] => some []
  | c :: s =>
      if c = percent then
        match s with
        | a :: b :: t =>
            if isHex a && isHex b && escapeAllowed mode a b then
              (unescape mode t).map ((unhex a * 16 + unhex b) :: ·)
            else none
        | _ => none
      else if c = plus && mode = .queryComponent then (unescape mode s).map (space :: ·)
      else if (mode = .host || mode = .zone) && c < 0x80 && shouldEscape c mode then none
      else (unescape mode s).map (c :: ·)

def escapeByte (mode : Encoding) (c : UInt8) : Str :=
  if shouldEscape c mode then
    if c = space && mode = .queryComponent then [plus]
    else [percent, upperHex (c / 16), upperHex (c % 16)]
  else [c]

def escape (mode : Encoding) (s : Str) : Str := s.flatMap (escapeByte mode)

def pathUnescape : Str → Option Str := unescape .pathSegment
def queryEscape : Str → Str := escape .queryComponent
def queryUnescape : Str → Option Str := unescape .queryComponent

/-- A parsed URL, with the fields and the empty-string defaults of `url.URL`. -/
structure URL where
  scheme : Str := []
  opaquePart : Str := []
  user : Option (Str × Option Str) := none
  host : Str := []
  path : Str := []
  rawPath : Str := []
  omitHost : Bool := false
  forceQuery : Bool := false
  rawQuery : Str := []
  fragment : Str := []
  rawFragment : Str := []
deriving DecidableEq, Repr

/-- The bytes a raw path may hold: what path escaping leaves alone, the sub-delimiters
it would escape, brackets and the percent sign. -/
def validEncodedByte (c : UInt8) : Bool :=
  c ∈ str "!$&'()*+,;=:@[]%" || !shouldEscape c .path

def validEncoded (s : Str) : Bool := s.all validEncodedByte

def URL.escapedPath (u : URL) : Str :=
  if u.rawPath ≠ [] ∧ validEncoded u.rawPath ∧ unescape .path u.rawPath = some u.path then u.rawPath
  else if u.path = str "*" then str "*"
  else escape .path u.path

def URL.requestURI (u : URL) : Str :=
  let result :=
    if u.opaquePart = [] then (if u.escapedPath = [] then [slash] else u.escapedPath)
    else if hasPrefix u.opaquePart [slash, slash] then u.scheme ++ colon :: u.opaquePart
      else u.opaquePart
  if u.forceQuery ∨ u.rawQuery ≠ [] then result ++ question :: u.rawQuery else result

/-- ASCII control characters, which no URL may contain. -/
def isCtl (c : UInt8) : Bool := c < 0x20 || c = 0x7F

/-- The scheme and the rest; `none` when the colon comes first. -/
def getSchemeAux (raw : Str) : Str → Str → Option (Str × Str)
  | _, [] => some ([], raw)
  | seen, c :: s =>
      if isAlpha c then getSchemeAux raw (seen ++ [c]) s
      else if isDigit c || c ∈ str "+-." then
        if seen = [] then some ([], raw) else getSchemeAux raw (seen ++ [c]) s
      else if c = colon then (if seen = [] then none else some (seen, s))
      else some ([], raw)

def getScheme (raw : Str) : Option (Str × Str) := getSchemeAux raw [] raw

/-- The text before the query, the `ForceQuery` flag and the raw query. -/
def splitQuery (rest : Str) : Str × Bool × Str :=
  if rest.getLast? = some question ∧ rest.count question = 1 then (rest.dropLast, true, [])
  else ((cut question rest).1, false, (cut question rest).2.getD [])

def validUserinfo (s : Str) : Bool := s.all fun c => isAlnum c || c ∈ str "-._:~!$&'()*+,;=%@"

def validOptionalPort : Str → Bool
  | [] => true
  | c :: s => c = colon && s.all isDigit

def parseHost (host : Str) : Option Str :=
  if hasPrefix host [0x5B] then
    match lastCut 0x5D host with
    | none => none
    | some (inside, port) =>
        if validOptionalPort port then
          match cutStr (str "%25") inside with
          | some (host₁, zone) => do
              let a ← unescape .host host₁
              let b ← unescape .zone (str "%25" ++ zone)
              let c ← unescape .host (0x5D :: port)
              pure (a ++ b ++ c)
          | none => unescape .host host
        else none
  else
    match lastCut colon host with
    | some (_, port) => if validOptionalPort (colon :: port) then unescape .host host else none
    | none => unescape .host host

/-- The user information and the host. -/
def parseAuthority (authority : Str) : Option (Option (Str × Option Str) × Str) :=
  match lastCut atSign authority with
  | none => (parseHost authority).map fun h => (none, h)
  | some (userinfo, host) => do
      let h ← parseHost host
      if validUserinfo userinfo then
        let name ← unescape .userPassword (cut colon userinfo).1
        match (cut colon userinfo).2 with
        | none => pure (some (name, none), h)
        | some password => do
            let pw ← unescape .userPassword password
            pure (some (name, some pw), h)
      else none

def URL.setPath (u : URL) (p : Str) : Option URL :=
  (unescape .path p).map fun path =>
    { u with path := path, rawPath := if escape .path path = p then [] else p }

/-- The authority, when there is one, and the path. -/
def parseHier (viaRequest : Bool) (u : URL) (rest : Str) : Option URL :=
  if (u.scheme ≠ [] ∨ (!viaRequest ∧ !hasPrefix rest (str "///"))) ∧ hasPrefix rest (str "//") then
    let authority := (cut slash (rest.drop 2)).1
    let path := (rest.drop 2).drop authority.length
    match parseAuthority authority with
    | none => none
    | some (user, host) => ({ u with user := user, host := host } : URL).setPath path
  else if u.scheme ≠ [] ∧ hasPrefix rest [slash]
    then ({ u with omitHost := true } : URL).setPath rest
  else u.setPath rest

def parse (viaRequest : Bool) (raw : Str) : Option URL :=
  if raw.any isCtl then none
  else if raw = [] ∧ viaRequest then none
  else if raw = str "*" then some { path := str "*" }
  else
    match getScheme raw with
    | none => none
    | some (scheme, rest) =>
        let q := splitQuery rest
        let u : URL := { scheme := lowerAscii scheme, forceQuery := q.2.1, rawQuery := q.2.2 }
        if hasPrefix q.1 [slash] then parseHier viaRequest u q.1
        else if scheme ≠ [] then some { u with opaquePart := q.1 }
        else if viaRequest then none
        else if colon ∈ (cut slash q.1).1 then none
        else parseHier viaRequest u q.1

def parseRequestURI (raw : Str) : Option URL := parse true raw

def URL.setFragment (u : URL) (f : Str) : Option URL :=
  (unescape .fragment f).map fun frag =>
    { u with fragment := frag, rawFragment := if escape .fragment frag = f then [] else f }

def URL.addFragment (u : URL) : Option Str → Option URL
  | none | some [] => some u
  | some frag => u.setFragment frag

/-- `url.Parse`: the fragment is cut off first and parsed last. -/
def urlParse (raw : Str) : Option URL :=
  (parse false (cut sharp raw).1).bind fun u => u.addFragment (cut sharp raw).2

/-- One `&`-separated field of a query; `none` when `ParseQuery` skips it. -/
def queryPair (field : Str) : Option (Str × Str) :=
  if semicolon ∈ field ∨ field = [] then none
  else
    match queryUnescape (cut equals field).1, queryUnescape ((cut equals field).2.getD []) with
    | some key, some value => some (key, value)
    | _, _ => none

/-- The pairs `url.ParseQuery` keeps, in order. Its error is ignored by every caller. -/
def parseQuery (q : Str) : List (Str × Str) := (split ampersand q).filterMap queryPair

/-- The parameter names, that is the keys of the map `url.ParseQuery` returns. -/
def queryNames (q : Str) : List Str := (parseQuery q).map Prod.fst

/-- `Values.Get`. -/
def queryGet (q : Str) (key : Str) : Str := ((parseQuery q).lookup key).getD []

/-- `Values.Encode`: keys in order, the values of one key in the order they came. -/
def encodeQuery (v : List (Str × Str)) : Str :=
  join ampersand ((sortStrings (v.map Prod.fst).dedup).flatMap fun k =>
    (v.filter fun p => p.1 = k).map fun p => queryEscape p.1 ++ equals :: queryEscape p.2)

end PierGateway.NetUrl
