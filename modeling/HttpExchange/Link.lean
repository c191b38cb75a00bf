import HttpExchange.Outgoing
import HttpExchange.Reply.Reader
import HttpExchange.Stream

/-!
# Connections to a far end

A `Link` is one outbound connection: where it goes, whether it may carry another request, and the
bytes that came beyond the last reply.  Its stream is kept apart from it.

An `Exchange` is one request and its reply on a link.  `Exchange.run` goes on until the exchange
is over or the stream makes it wait; it can be taken up again where it stopped, or given up.  While
an exchange is under way its link is not reusable, and it becomes so again only when a delimited
reply has been read to its end.
-/

namespace HttpExchange

/-- One outbound connection. -/
structure Link where
  id : Nat
  destination : Destination
  address : Address
  viaProxy : Bool := false
  reusable : Bool := true
  buffer : Bytes := []
  maxBody : Nat := Reply.defaultMaxBody
  /-- When the link was last put aside. -/
  idleSince : Nat := 0
  deriving DecidableEq, Repr

/-- One request and its reply, as far as it has come. -/
inductive Exchange
  /-- Writing the request, of which `rest` is left. -/
  | sending (method : Method) (rest : Bytes)
  /-- Reading the reply to a request with that method. -/
  | receiving (method : Method) (stage : Reply.Stage)
  deriving DecidableEq, Repr

namespace Exchange

/-- How a run of an exchange stopped. -/
inductive Outcome
  | finished (result : Except CallError Reply)
  /-- The stream makes it wait, perhaps until a known time. -/
  | waiting (exchange : Exchange) (wake : Option Nat)
  deriving Repr

/-- A run's outcome with the clock, the link and the stream it leaves. -/
structure Progress where
  outcome : Outcome
  now : Nat
  link : Link
  stream : Stream
  deriving Repr

/-- The failure of a write that takes nothing. -/
def wroteNothing : IoError := ⟨.writeZero, "write zero"⟩

/-- Whether a link may carry another request after a reply. -/
def leavesReusable (head : Reply.Head) (delimited : Bool) (buffer : Bytes) : Bool :=
  delimited && !head.asksToClose && head.version == "HTTP/1.1" && head.status != 101
    && buffer.isEmpty

/-- Writes bytes until all are taken; what is left otherwise, and why. -/
def writeAll (bytes : Bytes) (s : Stream) : Bytes × Option IoError × Stream :=
  match bytes with
  | [] => ([], none, s)
  | b :: rest => match s.write (b :: rest) with
    | (.waiting, s) => (b :: rest, none, s)
    | (.failed error, s) => (b :: rest, some error, s)
    | (.accepted 0, s) => (b :: rest, some wroteNothing, s)
    | (.accepted (n + 1), s) => writeAll (rest.drop n) s
termination_by bytes.length
decreasing_by simp only [List.length_drop, List.length_cons]; omega

/-- Reads until the reply is complete, a fault is met or the stream makes it wait. -/
def receive (patient : Bool) (now : Nat) (link : Link) (r : Reply.Reader) (s : Stream) :
    Progress :=
  match r.advance with
  | .complete head body delimited buffer =>
    ⟨.finished (.ok (head.withBody body)), now,
     { link with buffer, reusable := leavesReusable head delimited buffer }, s⟩
  | .failed error buffer => ⟨.finished (.error error), now, { link with buffer }, s⟩
  | .wants r => match _h : s.read patient now s.perRead with
    | (.data bytes, now, s) => receive patient now link (r.received bytes) s
    | (.failed error, now, s) =>
      ⟨.finished (.error (.io error)), now, { link with buffer := r.buffer }, s⟩
    | (.waiting wake, now, s) =>
      ⟨.waiting (.receiving r.method r.stage) wake, now, { link with buffer := r.buffer }, s⟩
    | (.ended, now, s) => match r.ended with
      | .complete head body delimited buffer =>
        ⟨.finished (.ok (head.withBody body)), now,
         { link with buffer, reusable := leavesReusable head delimited buffer }, s⟩
      | .failed error buffer => ⟨.finished (.error error), now, { link with buffer }, s⟩
      | .wants r => ⟨.finished (.error .closed), now, { link with buffer := r.buffer }, s⟩
termination_by s.weight
decreasing_by exact Stream.weight_lt_of_read_data (Stream.perRead_pos _) _h

/-- Goes on with an exchange on its link. -/
def run (patient : Bool) (now : Nat) (link : Link) (s : Stream) : Exchange → Progress
  | sending method rest => match writeAll rest s with
    | (_, some error, s) => ⟨.finished (.error (.io error)), now, link, s⟩
    | (b :: rest, none, s) => ⟨.waiting (.sending method (b :: rest)) none, now, link, s⟩
    | ([], none, s) => match s.flush with
      | (some error, s) => ⟨.finished (.error (.io error)), now, link, s⟩
      | (none, s) => receive patient now link (.start method link.maxBody link.buffer) s
  | receiving method stage =>
    receive patient now link { method, maxBody := link.maxBody, stage, buffer := link.buffer } s

end Exchange

namespace Link

/-- Takes a link into use for a request.  From here on it is not reusable, even if the request
cannot be written out. -/
def begin (link : Link) (r : Outgoing) : Link × Except CallError Exchange :=
  ({ link with reusable := false }, (r.encode? link.viaProxy).map (.sending r.method))

/-- Sends a request and reads the reply, up to the end or to the first wait. -/
def send (patient : Bool) (now : Nat) (link : Link) (r : Outgoing) (s : Stream) :
    Exchange.Progress :=
  match link.begin r with
  | (link, .error error) => ⟨.finished (.error error), now, link, s⟩
  | (link, .ok exchange) => exchange.run patient now link s

/-- Whether a link at rest can no longer be used: bytes that nobody asked for are there, or the
far end has closed, or reading fails.  One read is made that does not wait. -/
def probe (now : Nat) (link : Link) (s : Stream) : Bool × Link × Stream :=
  if !link.buffer.isEmpty then (true, link, s)
  else match s.read false now s.perRead with
    | (.waiting _, _, s) => (false, link, s)
    | (.data bytes, _, s) => (true, { link with buffer := bytes }, s)
    | (.ended, _, s) => (true, link, s)
    | (.failed _, _, s) => (true, link, s)

end Link

end HttpExchange
