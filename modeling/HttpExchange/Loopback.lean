import HttpExchange.Call.Redirect
import HttpExchange.Pool.Acquire
import HttpExchange.Settings

/-!
# A client and a server joined

The bytes that a client writes are served, and the bytes that the server writes come back as the
reply.  Each request has a connection of its own, since a session serves one request.
-/

namespace HttpExchange.Loopback

/-- A server on this machine: its port, its limits and its handler. -/
structure Host where
  port : Nat
  limits : ServingLimits
  handler : Handler

/-- What a server writes to one who sends these bytes and then waits. -/
def Host.reply (h : Host) (bytes : Bytes) : Bytes :=
  (Session.serve h.limits h.handler { reads := [.data bytes, .hang] }).2.written

/-- Whether a destination is this server. -/
def Host.isAt (h : Host) (d : Destination) : Bool :=
  (d.host == "127.0.0.1" || d.host == "localhost") && d.port == h.port

/-- Nobody listens there. -/
def refused : IoError := ⟨.connectionRefused, "Connection refused (os error 111)"⟩

/-- The address of a destination. -/
def addressOf (d : Destination) : Address :=
  ⟨(Address.ip? d.host).getD (Address.loopback 0).ip, d.port⟩

/-- One request and its reply. -/
def exchange (h : Host) (m : Routing) (o : ClientOptions) (r : Outgoing) :
    Except CallError Reply := do
  let route ← m.route o r
  let address := addressOf route.destination
  if !h.isAt route.destination then throw (.unconnected address refused)
  let link : Link :=
    { id := 0, destination := route.destination, address, viaProxy := route.viaProxy }
  let bytes ← r.encode? route.viaProxy
  let back : Stream := { reads := [.afterFlush 1, .data (h.reply bytes)] }
  match (link.send true 0 r back).outcome with
  | .finished result => result
  | .waiting _ _ => throw .timedOut

/-- A call, redirects followed. -/
def follow (h : Host) (m : Routing) (o : ClientOptions) (limit : Nat) (c : Chain) :
    Except CallError Reply :=
  match exchange h m o c.request with
  | .error error => .error error
  | .ok reply => match _h : c.onReply Url.join o limit reply with
    | .finished result => result
    | .follow next => follow h m o limit next
termination_by limit - c.redirects
decreasing_by
  have := Chain.redirects_of_follow _h
  omega

/-- A call of a client with these settings.  Without any time there is no reply. -/
def call (h : Host) (s : ClientSettings) (r : Outgoing) : Except CallError Reply :=
  if s.timeout = 0 then .error .timedOut
  else follow h { proxy := s.proxy } s.clientOptions s.callOptions.maxRedirects { request := r }

end HttpExchange.Loopback
