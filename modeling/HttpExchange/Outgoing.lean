import HttpExchange.CallError
import HttpExchange.Method
import HttpExchange.Url.Parse

/-!
# Requests as a client sends them

A request names its URL; from that come the target on the request line, the `Host` field and the
destination.  `Outgoing.encode?` writes it out.  Fields that belong to the connection are never
taken from the caller, save the first `Host`.
-/

namespace HttpExchange

/-- A request to be sent. -/
structure Outgoing where
  method : Method := .get
  url : Url
  headers : Headers := []
  body : Bytes := []
  deriving DecidableEq, Repr

namespace Outgoing

/-- A `GET` request for a URL given as text. -/
def ofText (s : String) : Except CallError Outgoing :=
  match Url.parse s with
  | .ok url => .ok { url }
  | .error fault => .error (.badUrl (.unreadable s fault))

/-- The host of the URL. -/
def host (r : Outgoing) : Except CallError String :=
  match r.url.hostText? with
  | some h => .ok h
  | none => .error (.badUrl (.noHost r.url.text))

/-- The port of the URL, given or implied. -/
def port (r : Outgoing) : Except CallError Nat :=
  match r.url.effectivePort? with
  | some p => .ok p
  | none => .error (.badUrl (.noPort r.url.text))

/-- What the `Host` field says unless the caller says otherwise: the host, and the port where it
is not the one the scheme implies. -/
def authority (r : Outgoing) : Except CallError String := do
  let host ← r.host
  return host ++ r.url.portText

/-- Path and query: the target for the origin itself. -/
def originForm (r : Outgoing) : String :=
  let path := r.url.path.text
  (if path.isEmpty then "/" else path) ++ r.url.queryText

/-- The URL without its fragment: the target for a proxy. -/
def absoluteForm (r : Outgoing) : String := r.url.withoutFragment.text

/-- The fields a connection manages itself. -/
def managed : List String :=
  ["Host", "Content-Length", "Transfer-Encoding", "Connection", "Proxy-Connection"]

/-- Whether a field is one that a connection manages. -/
def isManaged (h : Header) : Bool := managed.any fun name => h.named name

/-- The caller's `Host`, or else the authority of the URL. -/
def hostField (r : Outgoing) : Except CallError String :=
  match r.headers.first? "Host" with
  | some value => .ok value
  | none => r.authority

/-- One line of a request head. -/
def line (h : Header) : String := h.name ++ ": " ++ h.value ++ "\r\n"

/-- Whether the length of the body is declared. -/
def declaresLength (r : Outgoing) : Bool := !r.body.isEmpty || r.method.expectsBody

/-- The fields as sent: `Host`, the caller's own, and the length of the body. -/
def sentHeaders (r : Outgoing) (host : String) : Headers :=
  ⟨"Host", host⟩ :: r.headers.filter (!isManaged ·)
    ++ (if r.declaresLength then [⟨"Content-Length", Numeral.decimal r.body.length⟩] else [])

/-- The target as sent. -/
def target (viaProxy : Bool) (r : Outgoing) : String :=
  if viaProxy then r.absoluteForm else r.originForm

/-- The head as text. -/
def headText (viaProxy : Bool) (host : String) (r : Outgoing) : String :=
  r.method.name ++ " " ++ r.target viaProxy ++ " HTTP/1.1\r\n"
    ++ String.join ((r.sentHeaders host).map line) ++ "\r\n"

/-- The whole request as bytes. -/
def encode? (viaProxy : Bool) (r : Outgoing) : Except CallError Bytes := do
  let host ← r.hostField
  return Utf8.encode (r.headText viaProxy host) ++ r.body

end Outgoing

end HttpExchange
