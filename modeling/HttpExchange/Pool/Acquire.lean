import HttpExchange.Network
import HttpExchange.Options

/-!
# Getting a link for a request

Where a request goes is decided by its URL, or by the proxy if one is configured and asked for
(`Routing.route`).  Getting a link then takes up to two waits, for the address and for the
connection.  `Acquire.begin`, `Acquire.onLookup` and `Acquire.onConnect` are the moves between the
waits.  A link made by a connect belongs to the generation in which the connect was started.
-/

namespace HttpExchange

/-- The proxy, and the schemes that can be connected to. -/
structure Routing where
  proxy : Option Url := none
  schemes : List String := ["http"]
  deriving DecidableEq, Repr

/-- Where a request goes, and whether that is a proxy. -/
structure Route where
  destination : Destination
  viaProxy : Bool
  deriving DecidableEq, Repr

namespace Routing

/-- Whether links in a scheme can be made. -/
def supports (m : Routing) (scheme : String) : Bool := m.schemes.contains scheme

/-- The way to the proxy. -/
def toProxy (proxy : Url) : Except CallError Route :=
  match proxy.hostText?, proxy.effectivePort? with
  | none, _ => .error (.badUrl (.proxyWithoutHost proxy.text))
  | some _, none => .error (.badUrl (.proxyWithoutPort proxy.text))
  | some host, some port => .ok ⟨⟨proxy.scheme, host, port⟩, true⟩

/-- The way to the origin itself. -/
def toOrigin (r : Outgoing) : Except CallError Route := do
  let host ← r.host
  let port ← r.port
  return ⟨⟨r.url.scheme, host, port⟩, false⟩

/-- The way a request takes.  A proxy forwards only requests to `http` URLs. -/
def target (m : Routing) (o : ClientOptions) (r : Outgoing) : Except CallError Route :=
  match m.proxy with
  | some proxy =>
    if o.useProxy then
      if r.url.scheme == "http" then toProxy proxy
      else .error (.unsupportedScheme r.url.scheme)
    else toOrigin r
  | none => toOrigin r

/-- The way a request takes, if links can be made in its scheme and in that of the way. -/
def route (m : Routing) (o : ClientOptions) (r : Outgoing) : Except CallError Route :=
  if m.supports r.url.scheme then
    match m.target o r with
    | .error error => .error error
    | .ok route =>
      if m.supports route.destination.scheme then .ok route
      else .error (.unsupportedScheme route.destination.scheme)
  else .error (.unsupportedScheme r.url.scheme)

end Routing

/-- A connect that has been started, and the generation in which it was. -/
structure Attempt where
  route : Route
  address : Address
  generation : Nat
  deriving DecidableEq, Repr

namespace Acquire

/-- How a request for a link begins. -/
inductive Start
  | granted (handle : Handle)
  | failed (error : CallError)
  /-- The address has to be looked up; `caches` says whether it will be kept. -/
  | lookup (route : Route) (caches : Bool)
  /-- The address is known. -/
  | connect (attempt : Attempt)
  deriving DecidableEq, Repr

/-- The host and port that a route looks up. -/
def endpoint (route : Route) : Endpoint := (route.destination.host, route.destination.port)

/-- Takes the newest idle link that can still be used; the others in front of it are dropped. -/
def takeLive (d : Destination) (p : Pool) (n : Network) : Option Link × Pool × Network :=
  match _h : p.checkout n.clock d with
  | (none, p) => (none, p, n)
  | (some link, q) => match n.probe link with
    | (false, link, n) => (some link, q, n)
    | (true, _, n) => takeLive d q n
termination_by (p.idleTo d).length
decreasing_by exact Pool.length_idleTo_checkout_lt _h

/-- The first move: an idle link, or a connect to a known address, or a lookup. -/
def begin (m : Routing) (o : ClientOptions) (r : Outgoing) (p : Pool) (n : Network) :
    Start × Pool × Network :=
  match m.route o r with
  | .error error => (.failed error, p, n)
  | .ok route =>
    match takeLive route.destination p n.tick.2 with
    | (some link, p, n) => (.granted ⟨link, p.generation, true⟩, p, n)
    | (none, p, n) =>
      match (if o.cacheAddresses then p.address? (endpoint route) else none) with
      | some address => (.connect ⟨route, address, p.generation⟩, p, n)
      | none => (.lookup route o.cacheAddresses, p, n)

/-- The move when the resolver answers. -/
def onLookup (route : Route) (caches : Bool) (answer : Except IoError Address) (p : Pool) :
    Except CallError Attempt × Pool :=
  match answer with
  | .error error => (.error (.unresolved route.destination.host error), p)
  | .ok address =>
    (.ok ⟨route, address, p.generation⟩,
     if caches then p.remember (endpoint route) address else p)

/-- The move when the connector answers with the number of a stream. -/
def onConnect (a : Attempt) (answer : Except IoError Nat) : Except CallError Handle :=
  match answer with
  | .error error => .error (.unconnected a.address error)
  | .ok id =>
    .ok { link := { id, destination := a.route.destination, address := a.address,
                    viaProxy := a.route.viaProxy },
          generation := a.generation, reused := false }

end Acquire

end HttpExchange
