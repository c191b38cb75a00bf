import HttpExchange.Header
import HttpExchange.Status
import HttpExchange.Text.Numeral
import HttpExchange.Text.Utf8

/-!
# Responses as a handler makes them

A response holds a status, header fields and a body in segments.  `ResponseParts.build` adds the
length of the body where the caller has not declared one.
-/

namespace HttpExchange

/-- A response: its body is the segments one after another. -/
structure Response where
  status : Status := .ok
  headers : Headers := []
  body : List Bytes := []
  deriving DecidableEq, Repr

namespace Response

/-- An empty response with a status. -/
def ofStatus (status : Status) : Response := { status }

/-- The response with one field of that name, in place of any others. -/
def setHeader (r : Response) (name value : String) : Response :=
  { r with headers := r.headers.replaced name value }

/-- The response with one more field. -/
def addHeader (r : Response) (name value : String) : Response :=
  { r with headers := r.headers.added name value }

/-- The response with one more body segment, unless that is empty. -/
def append (r : Response) (segment : Bytes) : Response :=
  if segment.isEmpty then r else { r with body := r.body ++ [segment] }

/-- The whole body. -/
def bodyBytes (r : Response) : Bytes := r.body.flatten

/-- The length of the whole body. -/
def bodyLength (r : Response) : Nat := r.bodyBytes.length

/-- Whether the length of the body still has to be declared: there is no such field, and the
status allows a body. -/
def needsLength (r : Response) : Bool :=
  !r.headers.has "Content-Length" && !r.status.forbidsBody

/-- The response to `HEAD`: the fields of the full response, its length declared, and no body. -/
def withoutBody (r : Response) : Response :=
  let r := if r.needsLength then r.setHeader "Content-Length" (Numeral.decimal r.bodyLength) else r
  { r with body := [] }

end Response

/-- A response that is being put together. -/
structure ResponseParts where
  response : Response
  deriving DecidableEq, Repr

namespace ResponseParts

/-- Nothing but a status. -/
def ofStatus (status : Status) : ResponseParts := ⟨.ofStatus status⟩

/-- Sets one field. -/
def header (p : ResponseParts) (name value : String) : ResponseParts :=
  ⟨p.response.setHeader name value⟩

/-- Makes this the whole body. -/
def body (p : ResponseParts) (bytes : Bytes) : ResponseParts :=
  ⟨{ p.response with body := [] }.append bytes⟩

/-- Adds a segment to the body. -/
def chunk (p : ResponseParts) (bytes : Bytes) : ResponseParts := ⟨p.response.append bytes⟩

/-- The response, its length declared unless the caller did so or the status forbids a body. -/
def build (p : ResponseParts) : Response :=
  if p.response.needsLength then
    p.response.addHeader "Content-Length" (Numeral.decimal p.response.bodyLength)
  else p.response

end ResponseParts

namespace Response

/-- A successful response with a body. -/
def okWith (bytes : Bytes) : Response := ((ResponseParts.ofStatus .ok).body bytes).build

/-- The page a stock reply shows. -/
def stockPage (status : Status) : String :=
  "<html><head><title>" ++ status.reason ++ "</title></head><body><h1>"
    ++ Numeral.decimal status.code ++ " " ++ status.reason ++ "</h1></body></html>"

/-- The reply given where no handler speaks: a small page naming the status, or nothing at all
where the status forbids a body. -/
def stock (status : Status) : Response :=
  let parts := ResponseParts.ofStatus status
  if status.forbidsBody then parts.build
  else ((parts.header "Content-Type" "text/html").body (Utf8.encode (stockPage status))).build

end Response

end HttpExchange
