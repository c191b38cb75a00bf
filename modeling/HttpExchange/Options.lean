/-!
# Options of clients and calls
-/

namespace HttpExchange

/-- What holds for all calls of a client.  Times are in milliseconds. -/
structure ClientOptions where
  followRedirects : Bool := false
  cacheAddresses : Bool := false
  useProxy : Bool := false
  timeout : Nat := 30000
  certificatePaths : List String := []
  verifyPaths : List String := []
  /-- Whether calls run on a schedule that the caller provides. -/
  sharedSchedule : Bool := false
  deriving DecidableEq, Repr

/-- What holds for one call. -/
structure CallOptions where
  maxRedirects : Nat := 5
  /-- In place of the client's timeout. -/
  timeout : Option Nat := none
  deriving DecidableEq, Repr

/-- How long a call may take. -/
def CallOptions.timeLimit (o : CallOptions) (client : ClientOptions) : Nat :=
  o.timeout.getD client.timeout

end HttpExchange
