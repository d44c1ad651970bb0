import PierGateway.Claims
import PierGateway.HttpMessages

/-!
# Requests and answers of the web interface

A request as a handler of the web interface sees it: the message, the wildcards the
router took out of its path, and the identity the middleware found. An answer keeps
its cookies and the value behind its body as they were written, so that what an
answer says can be read without decoding it.
-/
namespace PierGateway.WebUI
open GoStrings NetUrl HttpMessages Auth

/-- Nanoseconds since the Unix epoch. -/
abbrev Time := ℤ

def second : Time := 1000000000

/-- `time.Time{}`, the first instant of the year 1. -/
def zeroTime : Time := -62135596800 * second

/-- What the middleware stores in the context of a request. -/
structure Identity where
  claims : MapClaims
  username : Str
  groups : List Str

structure UIRequest extends Request where
  pathValues : List (Str × Str) := []
  remoteAddr : Str := []
  identity : Option Identity := none

/-- `r.PathValue(name)`. -/
def UIRequest.pathValue (r : UIRequest) (name : Str) : Str := (r.pathValues.lookup name).getD []

/-- `r.URL.Query().Get(key)`. -/
def UIRequest.query (r : UIRequest) (key : Str) : Str := queryGet r.url.rawQuery key

def getUsername (r : UIRequest) : Str := (r.identity.map (·.username)).getD []
def getGroups (r : UIRequest) : List Str := (r.identity.map (·.groups)).getD []

/-! ### Answers -/

structure Cookie where
  name : Str
  value : Str
  path : Str
  httpOnly : Bool := true
  secure : Bool := true
  sameSite : Str := str "Lax"
  maxAge : ℤ
deriving DecidableEq

structure PermissionFlags where
  read : Bool
  write : Bool
  delete : Bool
deriving DecidableEq

structure BucketResponse where
  name : Str
  permissions : PermissionFlags
deriving DecidableEq

structure ObjectResponse where
  key : Str
  sizeBytes : ℤ
  lastModified : Time
  etag : Str
  isPrefix : Bool
deriving DecidableEq

structure ListObjectsResponse where
  objects : List ObjectResponse
  prefixes : List Str
  nextPageToken : Str
  truncated : Bool
deriving DecidableEq

structure ObjectMeta where
  key : Str
  contentType : Str
  contentLength : ℤ
  etag : Str
  lastModified : Time
deriving DecidableEq

structure BucketStatsResponse where
  bucket : Str
  objectCount : ℤ := 0
  sizeBytes : ℤ := 0
  truncated : Bool := false
  quotaBytes : ℤ := 0
deriving DecidableEq

/-- The value an answer was written from. -/
inductive Payload where
  | error (code message : Str)
  | buckets (list : List BucketResponse)
  | objects (list : ListObjectsResponse)
  | object (body : Str)
  | objectMeta (info : ObjectMeta)
  | status (status key : Str)
  | stats (totals : BucketStatsResponse)
  | identity (username : Str) (groups : List Str)
  | logout (logoutURL : Str)
  | redirect (location : Str)
deriving DecidableEq

structure Answer where
  status : ℕ
  header : Header := Header.empty
  cookies : List Cookie := []
  payload : Payload
deriving DecidableEq

def writeJSON (status : ℕ) (data : Payload) : Answer where
  status := status
  header := Header.empty.set (str "Content-Type") (str "application/json")
  payload := data

def writeError (status : ℕ) (code message : Str) : Answer :=
  writeJSON status (.error code message)

/-- `http.Redirect` with status 302, after the cookies have been set. -/
def redirectFound (method location : Str) (cookies : List Cookie) : Answer where
  status := 302
  header :=
    let located := Header.empty.set (str "Location") location
    if method = str "GET" ∨ method = str "HEAD" then
      located.set (str "Content-Type") (str "text/html; charset=utf-8")
    else located
  cookies := cookies
  payload := .redirect location

/-- `strconv.ParseInt(s, 10, bits)`. -/
def parseInt (bits : ℕ) (s : Str) : Option ℤ :=
  let digits := if s.head? = some plus ∨ s.head? = some hyphen then s.drop 1 else s
  if digits = [] ∨ !digits.all isDigit then none
  else
    let n : ℤ := digits.foldl (fun acc c => acc * 10 + (c.toNat - 0x30 : ℕ)) 0
    let v := if s.head? = some hyphen then -n else n
    if -(2 : ℤ) ^ (bits - 1) ≤ v ∧ v < (2 : ℤ) ^ (bits - 1) then some v else none

example : parseInt 32 (str "-17") = some (-17) ∧ parseInt 32 (str "4294967296") = none := by
  decide

/-- `strconv.FormatInt(n, 10)`. -/
def formatInt (n : ℤ) : Str := str (toString n)

/-! ### Dates in headers -/

def twoDigits (n : ℕ) : Str := [0x30 + UInt8.ofNat (n / 10 % 10), 0x30 + UInt8.ofNat (n % 10)]

/-- Year, month and day of a number of days since the Unix epoch. -/
def civilDate (days : ℤ) : ℤ × ℕ × ℕ :=
  let z := days + 719468
  let era := z / 146097
  let doe := (z % 146097).toNat
  let yoe := (doe - doe / 1460 + doe / 36524 - doe / 146096) / 365
  let doy := doe - (365 * yoe + yoe / 4 - yoe / 100)
  let mp := (5 * doy + 2) / 153
  let month := if mp < 10 then mp + 3 else mp - 9
  (era * 400 + yoe + if month ≤ 2 then 1 else 0, month, doy - (153 * mp + 2) / 5 + 1)

def weekdays : List Str :=
  [str "Thu", str "Fri", str "Sat", str "Sun", str "Mon", str "Tue", str "Wed"]

def months : List Str :=
  [str "Jan", str "Feb", str "Mar", str "Apr", str "May", str "Jun", str "Jul", str "Aug",
    str "Sep", str "Oct", str "Nov", str "Dec"]

/-- `t.Format(http.TimeFormat)` of a time in UTC. -/
def formatHTTPTime (t : Time) : Str :=
  let secs := t / second
  let days := secs / 86400
  let clock := (secs % 86400).toNat
  let (year, month, day) := civilDate days
  (weekdays.getD (days % 7).toNat []) ++ str ", " ++ twoDigits day ++ [space] ++
    (months.getD (month - 1) []) ++ [space] ++ twoDigits (year.toNat / 100) ++
    twoDigits year.toNat ++ [space] ++ twoDigits (clock / 3600) ++ [colon] ++
    twoDigits (clock / 60 % 60) ++ [colon] ++ twoDigits (clock % 60) ++ str " GMT"

example : formatHTTPTime (784111777 * second) = str "Sun, 06 Nov 1994 08:49:37 GMT" := by
  decide

end PierGateway.WebUI
