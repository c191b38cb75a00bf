import HttpExchange.Pool.Acquire

/-!
# A pool in its world

A `Broker` holds the routing, the pool and the network together.  Here are its operations where
one thing happens at a time; `Schedule` lets many calls run side by side.
-/

namespace HttpExchange

/-- The routing, the pool and the network. -/
structure Broker where
  routing : Routing
  pool : Pool
  network : Network

namespace Broker

/-- The unit of the pool's clock: so many ticks to a millisecond. -/
def ticksPerMillisecond : Nat := 1000000

/-- The broker with another pool and network. -/
def become (b : Broker) (pool : Pool) (network : Network) : Broker := { b with pool, network }

/-- Begins to get a link for a request; the resolver answers at once.  Gives a link, or a connect to
be made. -/
def request (b : Broker) (o : ClientOptions) (r : Outgoing) :
    Except CallError (Handle ⊕ Attempt) × Broker :=
  match Acquire.begin b.routing o r b.pool b.network with
  | (.granted handle, pool, network) => (.ok (.inl handle), b.become pool network)
  | (.failed error, pool, network) => (.error error, b.become pool network)
  | (.connect attempt, pool, network) => (.ok (.inr attempt), b.become pool network)
  | (.lookup route caches, pool, network) =>
    let (answer, network) := network.lookup (Acquire.endpoint route)
    let (result, pool) := Acquire.onLookup route caches answer pool
    (result.map .inr, b.become pool network)

/-- Makes a connect. -/
def connect (b : Broker) (a : Attempt) : Except CallError Handle × Broker :=
  let (answer, network) := b.network.connect a.route.destination a.address
  (Acquire.onConnect a answer, { b with network })

/-- Gets a link for a request; the connector too answers at once. -/
def acquire (b : Broker) (o : ClientOptions) (r : Outgoing) : Except CallError Handle × Broker :=
  match b.request o r with
  | (.error error, b) => (.error error, b)
  | (.ok (.inl handle), b) => (.ok handle, b)
  | (.ok (.inr attempt), b) => b.connect attempt

/-- Lets go of a link: the pool takes it back or it is dropped. -/
def release (b : Broker) (h : Handle) : Broker :=
  let (clock, network) := b.network.tick
  b.become (b.pool.checkin clock h.generation h.link) network

/-- Shuts a link down instead of giving it back. -/
def discard (b : Broker) (h : Handle) : Broker :=
  let s := b.network.stream h.link.id
  { b with network := b.network.withStream h.link.id s.shutdown.2 }

/-- Stores what an exchange has left. -/
def settle (b : Broker) (p : Exchange.Progress) : Broker :=
  { b with network := { b.network with now := p.now }.withStream p.link.id p.stream }

/-- Goes on with an exchange, up to its end or to the next wait. -/
def resume (b : Broker) (h : Handle) (x : Exchange) : Exchange.Outcome × Handle × Broker :=
  let p := x.run false b.network.now h.link (b.network.stream h.link.id)
  (p.outcome, { h with link := p.link }, b.settle p)

/-- Sends a request on a link; `patient` says whether to wait timers out. -/
def send (patient : Bool) (b : Broker) (h : Handle) (r : Outgoing) :
    Exchange.Outcome × Handle × Broker :=
  let p := h.link.send patient b.network.now r (b.network.stream h.link.id)
  (p.outcome, { h with link := p.link }, b.settle p)

/-- Forgets every address. -/
def forget (b : Broker) : Broker := { b with pool := b.pool.forget }

/-- Drops every idle link and every address. -/
def reset (b : Broker) : Broker := { b with pool := b.pool.reset }

/-- Nothing noted of lookups and connects. -/
def clearNotes (b : Broker) : Broker := { b with network := b.network.clearNotes }

end Broker

end HttpExchange
