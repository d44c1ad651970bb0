import PierGateway.CleanPaths
import PierGateway.PercentEncoding
import PierGateway.Routes

/-!
# The client of the object endpoints

The two path builders of the single-page application, the browser in front of them
and the conversation with the router: a request is sent, and as long as the answer is
a redirect its location is requested instead, up to the limit of the fetch standard. A
well-formed string of the client is its UTF-8 bytes. The browser is modelled for
references that are an absolute path of URL bytes with an optional query.
-/
namespace PierGateway.WebUI
open GoStrings NetUrl HttpMessages Interaction DotSegments ServeMux PercentEncoding CleanPaths

/-- The bytes `encodeURIComponent` leaves alone. -/
def componentByte (c : UInt8) : Bool := isAlnum c || c ∈ str "-_.!~*'()"

def encodeURIComponent (s : Str) : Str := percentEncode componentByte s

def encodeKey (key : Str) : Str := join slash ((split slash key).map encodeURIComponent)

def buildObjectPath (bucket key : Str) : Str :=
  str "/api/v1/buckets/" ++ encodeURIComponent bucket ++ str "/objects/" ++ encodeKey key

def buildMetaPath (bucket key : Str) : Str :=
  str "/api/v1/buckets/" ++ encodeURIComponent bucket ++ str "/meta/" ++ encodeKey key

example : buildObjectPath (str "b") (str "dir name/weird #?%.txt") =
    str "/api/v1/buckets/b/objects/dir%20name/weird%20%23%3F%25.txt" := by decide

/-! ### The browser -/

/-- The escaped dots of a segment written out. -/
def writeDots : Str → Str
  | c :: a :: b :: s =>
      if c = percent ∧ a = 0x32 ∧ (b = 0x65 ∨ b = 0x45) then dot :: writeDots s
      else c :: writeDots (a :: b :: s)
  | s => s

/-- A segment made of one or two dots, escaped or not, is a dot segment. -/
def browserKind (s : Str) : Kind := dotKind (writeDots s)

/-- The path state of the URL parser: a path that ends in a dot segment ends in a slash. -/
def browserSegments (segs : List Str) : List Str :=
  resolve browserKind segs ++
    if ∃ s ∈ segs.getLast?, browserKind s ≠ .name then [[]] else []

def browserPath (p : Str) : Str := ofSegments (browserSegments (segments p))

/-- What is sent for a reference: no fragment, and no dot segments in the path. -/
def requestTarget (reference : Str) : Str :=
  match cut question (cut sharp reference).1 with
  | (path, none) => browserPath path
  | (path, some query) => browserPath path ++ question :: query

/-- A request as it arrives at the web interface. -/
def sendTo (method : Str) (header : Header) (u : URL) : Request where
  method := method
  url := u
  header := header

/-- Follow redirects until a handler is reached. -/
def follow (method : Str) (header : Header) : ℕ → Str → Option (Request × Match (Option Endpoint))
  | 0, _ => none
  | requests + 1, reference =>
      match requestURL method (requestTarget reference) with
      | none => none
      | some u =>
          match findHandler uiRoutes (sendTo method header u) with
          | .serve m => some (sendTo method header u, m)
          | .redirect location => follow method header requests location
          | _ => none

/-- At most twenty redirects. -/
def maxRequests : ℕ := 21

/-- What the application does with a key. -/
inductive KeyUse where
  | download | upload | remove | inspect
deriving DecidableEq, Repr

namespace KeyUse

def method : KeyUse → Str
  | download | inspect => str "GET"
  | upload => str "PUT"
  | remove => str "DELETE"

def endpoint : KeyUse → Endpoint
  | download => .getObject
  | upload => .putObject
  | remove => .deleteObject
  | inspect => .objectMeta

/-- The directory of the route. -/
def directory : KeyUse → Str
  | inspect => str "meta"
  | _ => str "objects"

def path (use : KeyUse) (bucket key : Str) : Str :=
  match use with
  | inspect => buildMetaPath bucket key
  | _ => buildObjectPath bucket key

end KeyUse

/-- The request for a reference ends at the handler of the use, which finds this bucket and key. -/
def Reaches (use : KeyUse) (header : Header) (reference bucket key : Str) : Prop :=
  ∃ r m, follow use.method header maxRequests reference = some (r, m) ∧
    m.handler = some use.endpoint ∧
    use.endpoint.target (routed { toRequest := r } m) = (bucket, some key)

end PierGateway.WebUI
