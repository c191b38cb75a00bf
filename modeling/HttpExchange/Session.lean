import HttpExchange.Request.Head
import HttpExchange.Response.Delivery

/-!
# Serving one request on one connection

A `Session` reads a request head, then the body its length declares, calls the handler, writes the
response and shuts the stream down: one request per connection.  A head or a length that cannot be
used is answered with a stock reply, without the handler.

`Session.step` is one move between two waits, `Session.run` follows the moves to the end.  Every
move goes down in `Phase.rank`, or stays there and uses up some of the stream.
-/

namespace HttpExchange

/-- What a session allows: the room for one read, the longest head and the longest body. -/
structure ServingLimits where
  readSize : Nat := 1024
  maxHead : Nat := Head.defaultLimit
  maxBody : Nat := 8 * 1024 * 1024
  deriving DecidableEq, Repr

/-- Fills in the response to a request. -/
abbrev Handler := Request → Response → Response

namespace Session

/-- What a session reports while it runs. -/
inductive Notice
  | closedByPeer
  | readFailed (error : IoError)
  | writeFailed (error : IoError)
  deriving DecidableEq, Repr

/-- A notice in words. -/
def Notice.message : Notice → String
  | closedByPeer => "peer closed connection mid-request"
  | readFailed error => "read failed: " ++ error.text
  | writeFailed error => "write failed: " ++ error.text

/-- How far a session has come. -/
inductive Phase
  /-- Reading the head; `started` once a byte of it has come. -/
  | reading (reader : Head.Reader) (draft : Head.Draft) (started : Bool)
  /-- Reading the body, of which `received` is there. -/
  | awaitingBody (request : Request) (expected : Nat) (received : Array UInt8)
  | dispatching (request : Request)
  | writing (delivery : Delivery)
  | shuttingDown
  | closed
  deriving DecidableEq, Repr

/-- How many kinds of phase are still to come. -/
def Phase.rank : Phase → Nat
  | reading _ _ _ => 5
  | awaitingBody _ _ _ => 4
  | dispatching _ => 3
  | writing _ => 2
  | shuttingDown => 1
  | closed => 0

/-- Answers with a stock reply. -/
def Phase.reject (status : Status) : Phase := .writing (.ofResponse (.stock status))

/-- Adds bytes to a body, never past its declared length. -/
def Phase.addBody (request : Request) (expected : Nat) (received : Array UInt8) (bytes : Bytes) :
    Phase :=
  let received := received ++ bytes.take (expected - received.size)
  if expected ≤ received.size then .dispatching { request with body := received.toList }
  else .awaitingBody request expected received

/-- What follows a head: the handler, a body, or a stock reply.  `rest` are the bytes that came
with the end of the head. -/
def Phase.afterHead (limits : ServingLimits) (request : Request) (rest : Bytes) : Phase :=
  if request.method.expectsBody then
    match request.contentLength? with
    | none | some (.error _) => .reject .badRequest
    | some (.ok length) =>
      if length = 0 then .dispatching request
      else if limits.maxBody < length then .reject .payloadTooLarge
      else .addBody request length #[] rest
  else .dispatching request

/-- What follows the bytes of one read. -/
def Phase.onData (limits : ServingLimits) (bytes : Bytes) : Phase → Phase
  | reading reader draft _ => match reader.feed draft bytes with
    | ⟨.incomplete, reader, draft⟩ => .reading reader draft true
    | ⟨.failed _, _, _⟩ => .reject .badRequest
    | ⟨.complete consumed, _, draft⟩ => .afterHead limits draft.request (bytes.drop consumed)
  | awaitingBody request expected received => .addBody request expected received bytes
  | phase => phase

/-- Whether the peer may close without leaving a request half sent. -/
def Phase.isFresh : Phase → Bool
  | reading _ _ started => !started
  | _ => false

end Session

/-- A session: its phase, the requests its handler was called with and what it has reported. -/
structure Session where
  phase : Session.Phase
  requests : List Request := []
  notices : List Session.Notice := []
  deriving DecidableEq, Repr

namespace Session

/-- A session before its first read. -/
def start (limits : ServingLimits) : Session :=
  { phase := .reading (.ofLimit limits.maxHead) {} false }

/-- The session in another phase. -/
def goto (c : Session) (phase : Phase) : Session := { c with phase }

/-- The session closed, with something to report. -/
def closeWith (c : Session) (notice : Notice) : Session :=
  { c with phase := .closed, notices := c.notices ++ [notice] }

/-- The session after the bytes of one read. -/
def receive (limits : ServingLimits) (bytes : Bytes) : Session → Session
  | ⟨phase, requests, notices⟩ => ⟨phase.onData limits bytes, requests, notices⟩

/-- Calls the handler on an empty response.  A response to `HEAD` loses its body. -/
def dispatch (handler : Handler) (request : Request) (c : Session) : Session :=
  let response := handler request {}
  let response := if request.method = .head then response.withoutBody else response
  { c with phase := .writing (.ofResponse response), requests := c.requests ++ [request] }

/-- What one move comes to. -/
inductive Step
  | moved (now : Nat) (session : Session) (stream : Stream)
  /-- The stream will never go on. -/
  | stalled (session : Session) (stream : Stream)
  deriving DecidableEq, Repr

/-- One read, and what follows it. -/
def readStep (limits : ServingLimits) (now : Nat) (c : Session) (s : Stream) : Step :=
  match s.read true now (max limits.readSize 1) with
  | (.waiting _, _, s) => .stalled c s
  | (.data bytes, now, s) => .moved now (c.receive limits bytes) s
  | (.failed error, now, s) => .moved now (c.closeWith (.readFailed error)) s
  | (.ended, now, s) =>
    .moved now (if c.phase.isFresh then c.goto .closed else c.closeWith .closedByPeer) s

/-- One move. -/
def step (limits : ServingLimits) (handler : Handler) (now : Nat) (c : Session) (s : Stream) :
    Step :=
  match c.phase with
  | .reading _ _ _ | .awaitingBody _ _ _ => readStep limits now c s
  | .dispatching request => .moved now (c.dispatch handler request) s
  | .writing delivery => match delivery.run s with
    | (.waiting, delivery, s) => .stalled (c.goto (.writing delivery)) s
    | (.failed error, _, s) => .moved now (c.closeWith (.writeFailed error)) s
    | (.delivered, _, s) => .moved now (c.goto .shuttingDown) s
  | .shuttingDown => .moved now (c.goto .closed) s.shutdown.2
  | .closed => .stalled c s

/-! ### Every run ends -/

theorem rank_addBody_le (request : Request) (expected : Nat) (received : Array UInt8)
    (bytes : Bytes) : (Phase.addBody request expected received bytes).rank ≤ 4 := by
  simp only [Phase.addBody]
  split <;> simp [Phase.rank]

theorem rank_afterHead_le (limits : ServingLimits) (request : Request) (rest : Bytes) :
    (Phase.afterHead limits request rest).rank ≤ 4 := by
  simp only [Phase.afterHead]
  split
  · split
    · simp [Phase.reject, Phase.rank]
    · simp [Phase.reject, Phase.rank]
    · split
      · simp [Phase.rank]
      · split
        · simp [Phase.reject, Phase.rank]
        · exact rank_addBody_le ..
  · simp [Phase.rank]

theorem rank_onData_le (limits : ServingLimits) (bytes : Bytes) (phase : Phase) :
    (phase.onData limits bytes).rank ≤ phase.rank := by
  cases phase with
  | reading reader draft started =>
    simp only [Phase.onData]
    split
    · simp [Phase.rank]
    · simp [Phase.reject, Phase.rank]
    · exact Nat.le_trans (rank_afterHead_le ..) (by simp [Phase.rank])
  | awaitingBody request expected received => exact rank_addBody_le ..
  | dispatching | writing | shuttingDown | closed => exact Nat.le_refl _

/-- The order in which moves go down. -/
def measure (c : Session) (s : Stream) : Nat × Nat := (c.phase.rank, s.weight)

theorem measure_readStep {limits : ServingLimits} {now clock : Nat} {c d : Session}
    {s t : Stream} (hrank : 0 < c.phase.rank) (h : readStep limits now c s = .moved clock d t) :
    Prod.Lex (· < ·) (· < ·) (d.measure t) (c.measure s) := by
  simp only [readStep] at h
  split at h
  · cases h
  · next bytes clock s' hread =>
    cases h
    have hw := Stream.weight_lt_of_read_data (by omega) hread
    rcases Nat.lt_or_eq_of_le (rank_onData_le limits bytes c.phase) with hlt | heq
    · exact Prod.Lex.left _ _ hlt
    · simp only [measure, receive, heq]
      exact Prod.Lex.right _ hw
  · cases h
    exact Prod.Lex.left _ _ hrank
  · cases h
    refine Prod.Lex.left _ _ ?_
    split <;> exact hrank

theorem measure_step {limits : ServingLimits} {handler : Handler} {now clock : Nat}
    {c d : Session} {s t : Stream} (h : step limits handler now c s = .moved clock d t) :
    Prod.Lex (· < ·) (· < ·) (d.measure t) (c.measure s) := by
  simp only [step] at h
  split at h
  · next hp => exact measure_readStep (by simp [hp, Phase.rank]) h
  · next hp => exact measure_readStep (by simp [hp, Phase.rank]) h
  · next hp =>
    cases h
    exact Prod.Lex.left _ _ (by simp [dispatch, hp, Phase.rank])
  · next hp =>
    split at h
    · cases h
    · cases h
      exact Prod.Lex.left _ _ (by simp [closeWith, hp, Phase.rank])
    · cases h
      exact Prod.Lex.left _ _ (by simp [goto, hp, Phase.rank])
  · next hp =>
    cases h
    exact Prod.Lex.left _ _ (by simp [goto, hp, Phase.rank])
  · cases h

/-- Follows the moves until the session is closed or its stream stalls. -/
def run (limits : ServingLimits) (handler : Handler) (now : Nat) (c : Session) (s : Stream) :
    Session × Stream :=
  match _h : step limits handler now c s with
  | .stalled c s => (c, s)
  | .moved now c s => run limits handler now c s
termination_by c.measure s
decreasing_by exact measure_step _h

/-- Serves one connection from its start. -/
def serve (limits : ServingLimits) (handler : Handler) (s : Stream) : Session × Stream :=
  run limits handler 0 (start limits) s

end Session

/-! ### A handler that echoes -/

namespace Handler

/-- Answers with the request line and the body of the request, as plain text. -/
def echo : Handler := fun request response =>
  let line := request.method.name ++ " " ++ request.target ++ " " ++ request.version ++ "\n"
  ((response.setHeader "Content-Type" "text/plain").append (Utf8.encode line)).append request.body

end Handler

end HttpExchange
