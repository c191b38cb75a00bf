/-!
# Failures of streams, resolvers and connectors
-/

namespace HttpExchange

/-- What kind of failure a stream, resolver or connector met. -/
inductive IoKind
  | notFound | permissionDenied | connectionRefused | connectionReset | hostUnreachable
  | networkUnreachable | connectionAborted | notConnected | addrInUse | addrNotAvailable
  | networkDown | brokenPipe | alreadyExists | wouldBlock | invalidInput | invalidData
  | timedOut | writeZero | interrupted | unsupported | unexpectedEof | outOfMemory | other
  deriving DecidableEq, Repr

namespace IoKind

/-- Every kind with its name. -/
def names : List (IoKind × String) :=
  [(notFound, "NotFound"), (permissionDenied, "PermissionDenied"),
   (connectionRefused, "ConnectionRefused"), (connectionReset, "ConnectionReset"),
   (hostUnreachable, "HostUnreachable"), (networkUnreachable, "NetworkUnreachable"),
   (connectionAborted, "ConnectionAborted"), (notConnected, "NotConnected"),
   (addrInUse, "AddrInUse"), (addrNotAvailable, "AddrNotAvailable"),
   (networkDown, "NetworkDown"), (brokenPipe, "BrokenPipe"), (alreadyExists, "AlreadyExists"),
   (wouldBlock, "WouldBlock"), (invalidInput, "InvalidInput"), (invalidData, "InvalidData"),
   (timedOut, "TimedOut"), (writeZero, "WriteZero"), (interrupted, "Interrupted"),
   (unsupported, "Unsupported"), (unexpectedEof, "UnexpectedEof"), (outOfMemory, "OutOfMemory"),
   (other, "Other")]

/-- The name of a kind. -/
def name (k : IoKind) : String :=
  match names.find? (·.1 = k) with
  | some entry => entry.2
  | none => "Other"

/-- The kind of that name. -/
def ofName? (s : String) : Option IoKind := (names.find? (·.2 = s)).map (·.1)

end IoKind

/-- A failure: its kind and the text that describes it. -/
structure IoError where
  kind : IoKind
  text : String
  deriving DecidableEq, Repr

end HttpExchange
