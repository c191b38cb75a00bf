import HttpExchange.Header
import HttpExchange.Text.Utf8

/-!
# Replies

A reply is a response as a client receives it: whatever status number and reason the far end
chose, its fields and its whole body.
-/

namespace HttpExchange

/-- A response as received. -/
structure Reply where
  status : Nat
  reason : String
  version : String
  headers : Headers
  body : Bytes
  deriving DecidableEq, Repr

namespace Reply

/-- A status of the two hundreds. -/
def isSuccess (r : Reply) : Bool := 200 ≤ r.status && r.status < 300

/-- The statuses that send a client elsewhere. -/
def isRedirect (r : Reply) : Bool := [301, 302, 303, 307, 308].contains r.status

/-- Where a client is sent. -/
def location? (r : Reply) : Option String := r.headers.first? "Location"

/-- The body as text. -/
def text (r : Reply) : String := Utf8.decode r.body

/-- Why bytes are not a reply that can be used. -/
inductive Fault
  | headTooLarge
  | headNotText
  | statusLine (line : String)
  | fieldLine (line : String)
  | length (value : String)
  | bodyTooLong (limit : Nat)
  | chunkSize
  | chunkEnd
  deriving DecidableEq, Repr

end Reply

end HttpExchange
