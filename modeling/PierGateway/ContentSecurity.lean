import PierGateway.GoUnicode

/-!
# Serving stored objects safely

What an object may be called and which media type it may have when it is served
from the origin of the application: active types are downgraded to an attachment,
and a file name is cut down to characters that cannot leave a quoted header value.
-/
namespace PierGateway.WebUI
open GoStrings GoUnicode

def headerXCTO : Str := str "nosniff"
def headerCSP : Str := str "default-src 'none'; sandbox"
def octetStream : Str := str "application/octet-stream"

def activeContentTypes : List Str :=
  [str "text/html", str "application/xhtml+xml", str "image/svg+xml", str "application/xml",
    str "text/xml", str "application/xml-dtd", str "application/mathml+xml",
    str "application/rss+xml", str "application/atom+xml"]

structure Disposition where
  contentType : Str
  isInline : Bool
deriving DecidableEq

def isActiveContentType (media : Str) : Bool :=
  if media ∈ activeContentTypes then true else hasSuffix media (str "+xml")

def bareMediaType (ct : Str) : Str :=
  if trimSpace ct = [] then [] else toLower (trimSpace (cut semicolon (trimSpace ct)).1)

def neutralizeContentType (upstream : Str) : Disposition :=
  if bareMediaType upstream = [] then { contentType := octetStream, isInline := true }
  else if isActiveContentType (bareMediaType upstream) then
    { contentType := octetStream, isInline := false }
  else { contentType := upstream, isInline := true }

abbrev backslash : UInt8 := 0x5C
abbrev quotation : UInt8 := 0x22

/-- `path.Base`. -/
def pathBase (p : Str) : Str :=
  if p = [] then [dot]
  else
    let stripped := trimRight slash p
    let base := ((lastCut slash stripped).map Prod.snd).getD stripped
    if base = [] then [slash] else base

def sanitizeFilename (key : Str) : Str :=
  let firstLine := key.takeWhile fun c => c ≠ 0x0D && c ≠ 0x0A
  let name := pathBase (firstLine.map fun c => if c = backslash then slash else c)
  let kept := (runes name).flatMap fun r =>
    if r.value = 0x22 ∨ r.value < 0x20 ∨ r.value = 0x7F then [] else encodeRune r.value
  let base := trimSpace kept
  if base = [] ∨ base = [dot] ∨ base = [dot, dot] then str "download" else base

example : sanitizeFilename (str "a\\b\"c\r\nSet-Cookie: x") = str "bc" := by decide

end PierGateway.WebUI
