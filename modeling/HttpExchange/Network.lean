import HttpExchange.Pool

/-!
# The world around a client

What resolvers and connectors will answer, laid down beforehand, and every stream that was opened,
by the number of its link.  Two clocks run here: `now` is the time that timers see, in
milliseconds; `clock` tells idle links apart by age and goes on by one with every look at it.
-/

namespace HttpExchange

/-- What an attempt to connect meets. -/
inductive Dial
  | opens (stream : Stream)
  | refuses (error : IoError)
  deriving DecidableEq, Repr

/-- Answers to come, and what has happened. -/
structure Network where
  hosts : List (String × Except IoError Host) := []
  dials : List Dial := []
  streams : Array Stream := #[]
  lookups : List Endpoint := []
  connects : List (Destination × Address) := []
  now : Nat := 0
  clock : Nat := 0

namespace Network

/-- The failure of a connect for which nothing was laid down. -/
def noMoreConnections : IoError := ⟨.other, "no more connections"⟩

/-- The next look at the clock. -/
def tick (n : Network) : Nat × Network := (n.clock, { n with clock := n.clock + 1 })

/-- Looks up a host; one that was not laid down is this machine. -/
def lookup (n : Network) (e : Endpoint) : Except IoError Address × Network :=
  let answer := match n.hosts.lookup e.1 with
    | none => .ok (Address.loopback e.2)
    | some (.ok ip) => .ok ⟨ip, e.2⟩
    | some (.error error) => .error error
  (answer, { n with lookups := n.lookups ++ [e] })

/-- Connects; an open stream gets the next number. -/
def connect (n : Network) (d : Destination) (a : Address) : Except IoError Nat × Network :=
  let n := { n with connects := n.connects ++ [(d, a)] }
  match n.dials with
  | [] => (.error noMoreConnections, n)
  | .refuses error :: rest => (.error error, { n with dials := rest })
  | .opens stream :: rest =>
    (.ok n.streams.size, { n with dials := rest, streams := n.streams.push stream })

/-- The stream of a link. -/
def stream (n : Network) (id : Nat) : Stream := n.streams.getD id {}

/-- The network after something has happened on a stream. -/
def withStream (n : Network) (id : Nat) (s : Stream) : Network :=
  { n with streams := n.streams.setIfInBounds id s }

/-- The network with nothing noted of lookups and connects. -/
def clearNotes (n : Network) : Network := { n with lookups := [], connects := [] }

/-- Looks whether an idle link can no longer be used. -/
def probe (n : Network) (link : Link) : Bool × Link × Network :=
  let (stale, link, s) := link.probe n.now (n.stream link.id)
  (stale, link, n.withStream link.id s)

end Network

end HttpExchange
