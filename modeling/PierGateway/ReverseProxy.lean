import PierGateway.HttpMessages
import PierGateway.QueryLaws

/-!
# The reverse proxy of `net/http/httputil`

One exchange of `ReverseProxy.ServeHTTP` in its `Rewrite` form: the inbound
request is cloned, cleaned of hop-by-hop and forwarding headers and of query text
that does not parse, handed to the callback and then to the transport. The
callback returns the outbound request and a value of its own choosing, which is
kept in the result: it has no other way to report anything.
-/
namespace PierGateway.ReverseProxy
open GoStrings NetUrl HttpMessages QueryLaws

def hopHeaders : List Str :=
  [str "Connection", str "Proxy-Connection", str "Keep-Alive", str "Proxy-Authenticate",
    str "Proxy-Authorization", str "Te", str "Trailer", str "Transfer-Encoding", str "Upgrade"]

def forwardingHeaders : List Str :=
  [str "Forwarded", str "X-Forwarded-For", str "X-Forwarded-Host", str "X-Forwarded-Proto"]

/-- The header fields a `Connection` line names. -/
def connectionFields (h : Header) : List Str :=
  ((h.values (str "Connection")).flatMap fun v => (split comma v).map trimString).filter (· ≠ [])

def removeHopByHopHeaders (h : Header) : Header := (h.delAll (connectionFields h)).delAll hopHeaders

def upgradeType (h : Header) : Str :=
  if headerValuesContainsToken (h.values (str "Connection")) (str "Upgrade")
  then h.get (str "Upgrade") else []

/-- `ascii.IsPrint`. -/
def isPrint (s : Str) : Bool := s.all fun c => 0x20 ≤ c && c ≤ 0x7E

/-- No semicolon, and every percent sign starts an escape. -/
def queryClean : Str → Bool
  | [] => true
  | c :: s =>
      if c = semicolon then false
      else if c = percent then
        match s with
        | a :: b :: t => isHex a && isHex b && queryClean t
        | _ => false
      else queryClean s

def cleanQueryParams (s : Str) : Str := if queryClean s then s else encodeQuery (parseQuery s)

/-- Cleaning a query keeps the names of its parameters. -/
theorem mem_queryNames_cleanQueryParams (s n : Str) :
    n ∈ queryNames (cleanQueryParams s) ↔ n ∈ queryNames s := by
  unfold cleanQueryParams
  split_ifs
  · exact Iff.rfl
  · exact mem_queryNames_encodeQuery (parseQuery s) n

/-- What the callback is given: the request as it came and the one to be sent. -/
structure ProxyRequest where
  inbound : Request
  out : Request

inductive ProxyError where
  | invalidProtocol (asked : Str)
  | switchedProtocol (asked got : Str)
  | transport (message : Str)
deriving DecidableEq

/-- One exchange: what the callback left behind, the requests handed to the transport
in order, and the response of the client. -/
structure Exchange (σ : Type) where
  callback : Option σ
  sent : List Request
  reply : Response

/-- The header map the callback finds on the outbound request. -/
def outboundHeader (h : Header) : Header :=
  let stripped := removeHopByHopHeaders h
  let withTe :=
    if headerValuesContainsToken (h.values (str "Te")) (str "trailers")
    then stripped.set (str "Te") (str "trailers") else stripped
  let withUpgrade :=
    if upgradeType h ≠ [] then
      (withTe.set (str "Connection") (str "Upgrade")).set (str "Upgrade") (upgradeType h)
    else withTe
  withUpgrade.delAll forwardingHeaders

def proxyRequest (r : Request) : ProxyRequest where
  inbound := r
  out := { r with
    body := if r.contentLength = 0 then [] else r.body
    header := outboundHeader r.header
    url := { r.url with rawQuery := cleanQueryParams r.url.rawQuery } }

/-- An absent `User-Agent` is sent as an empty one, not as the default of the client. -/
def withUserAgent (r : Request) : Request :=
  if r.header.Has (str "User-Agent") then r
  else { r with header := r.header.set (str "User-Agent") [] }

/-- The response of the backend as the client receives it. -/
def relay (errorHandler : ProxyError → Response) (out : Request) (res : Response) : Response :=
  if res.status = 101 then
    let asked := upgradeType out.header
    let got := upgradeType res.header
    if isPrint got ∧ lowerAscii asked = lowerAscii got then res
    else errorHandler (.switchedProtocol asked got)
  else { res with header := removeHopByHopHeaders res.header }

def serveHTTP {σ : Type} (rewrite : ProxyRequest → Request × σ)
    (errorHandler : ProxyError → Response) (roundTrip : Request → Except Str Response)
    (r : Request) : Exchange σ :=
  if !isPrint (upgradeType r.header) then
    { callback := none, sent := [],
      reply := errorHandler (.invalidProtocol (upgradeType r.header)) }
  else
    let result := rewrite (proxyRequest r)
    let out := withUserAgent result.1
    { callback := some result.2
      sent := [out]
      reply := match roundTrip out with
        | .error message => errorHandler (.transport message)
        | .ok res => relay errorHandler out res }

section Exchange

variable {σ : Type} (rewrite : ProxyRequest → Request × σ) (errorHandler : ProxyError → Response)
  (roundTrip : Request → Except Str Response)

/-- Without a printable protocol to switch to there is no callback and nothing is sent. -/
theorem serveHTTP_invalid {r : Request} (h : isPrint (upgradeType r.header) = false) :
    serveHTTP rewrite errorHandler roundTrip r =
      { callback := none, sent := [],
        reply := errorHandler (.invalidProtocol (upgradeType r.header)) } := by
  simp [serveHTTP, h]

end Exchange

theorem lookup_withUserAgent {r : Request} {k : Str} (hk : k ≠ str "User-Agent") :
    (withUserAgent r).header.lookup k = r.header.lookup k := by
  unfold withUserAgent
  split_ifs
  · rfl
  · have hc : canonicalKey (str "User-Agent") = str "User-Agent" := by decide
    rw [Header.set, Header.lookup_insert, hc, if_neg hk]

@[simp] theorem withUserAgent_url (r : Request) : (withUserAgent r).url = r.url := by
  unfold withUserAgent
  split_ifs <;> rfl

@[simp] theorem withUserAgent_method (r : Request) : (withUserAgent r).method = r.method := by
  unfold withUserAgent
  split_ifs <;> rfl

end PierGateway.ReverseProxy
