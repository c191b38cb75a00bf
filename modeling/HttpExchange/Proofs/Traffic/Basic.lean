import Mathlib.Data.List.Perm.Basic
import HttpExchange.Broker

/-!
# Callers of one pool, in any order

`Traffic` is a pool with all who have ever asked it for a link.  A caller gets its link through the
moves of `Acquire`, one at a time: between two of them everybody else may move.  Then it sends
requests on its link, each of which may stop at every wait and may be given up there, and at last
lets go of the link.  An `Action` names the one who moves, or changes what they all share: the
addresses are forgotten, the pool is reset, the world goes on.

Any list of actions is a run (`Traffic.run`); an action of one who cannot do it now does nothing.
What resolvers answer is part of the action, and the world may go on in any way that keeps the
streams which are open: so a run may meet every far end and every passage of time.

Some of what has happened is kept: the connects, in the order in which they were started, the
connect that each link came of, and the handles that were let go of.
-/

namespace HttpExchange

/-- How far a caller has come. -/
inductive Stage
  /-- About to look for an idle link. -/
  | choosing (route : Route)
  /-- An idle link was taken out; it may be dead. -/
  | probing (route : Route) (handle : Handle)
  /-- No idle link was left. -/
  | lacking (route : Route)
  /-- Waiting for the resolver. -/
  | resolving (route : Route)
  | located (route : Route) (address : Address)
  /-- Waiting for the connector; the connect has the number `ticket`. -/
  | connecting (ticket : Nat) (attempt : Attempt)
  /-- Holding a link, on which an exchange may be under way. -/
  | holding (handle : Handle) (exchange : Option Exchange)
  | refused (error : CallError)
  | gone
  deriving DecidableEq, Repr

/-- How far a caller has come that has looked for an idle link. -/
def Stage.afterTake (route : Route) (generation : Nat) : Option Link → Stage
  | some link => probing route ⟨link, generation, true⟩
  | none => lacking route

/-- How far a caller has come that has looked for the address. -/
def Stage.afterLocate (route : Route) : Option Address → Stage
  | some address => located route address
  | none => resolving route

/-- What a caller asks for, and how far it has come. -/
structure Caller where
  options : ClientOptions
  request : Outgoing
  stage : Stage
  deriving DecidableEq, Repr

/-- What a caller can do. -/
inductive Deed
  /-- Take an idle link out. -/
  | take
  /-- See whether it is alive. -/
  | probe
  /-- Look for the address among those that are kept. -/
  | locate
  /-- Hear from the resolver. -/
  | answer (result : Except IoError Address)
  /-- Start a connect. -/
  | dial
  /-- Hear from the connector. -/
  | connect
  /-- Give up waiting for the resolver or the connector. -/
  | cancel
  /-- Send a request, up to the end of the exchange or to its first wait. -/
  | send (request : Outgoing)
  /-- Go on with the exchange. -/
  | resume
  /-- Give up the exchange. -/
  | abandon
  /-- Let go of the link. -/
  | drop
  /-- Shut the link down. -/
  | discard

/-- What happens next. -/
inductive Action
  /-- Somebody new asks for a link. -/
  | ask (options : ClientOptions) (request : Outgoing)
  /-- The caller with that number does something. -/
  | caller (number : Nat) (deed : Deed)
  | forget
  | reset
  | world (network : Network)

/-- The exchange that is left to go on with. -/
def Exchange.Outcome.exchange? : Exchange.Outcome → Option Exchange
  | finished _ => none
  | waiting exchange _ => some exchange

/-- The link a caller holds, or has taken out and still looks at. -/
def Stage.handle? : Stage → Option Handle
  | probing _ h => some h
  | holding h _ => some h
  | _ => none

/-- The number of that link. -/
def Stage.link? (s : Stage) : Option Nat := s.handle?.map (·.link.id)

/-- A pool in its world, everybody who has asked it for a link, and what has happened. -/
structure Traffic where
  broker : Broker
  callers : List Caller := []
  /-- Every connect that was started, the oldest first. -/
  started : List Attempt := []
  /-- For each link the number of the connect that made it. -/
  made : List (Nat × Nat) := []
  /-- The handles that were let go of, the newest first. -/
  returned : List Handle := []

namespace Traffic

/-- The beginning: nobody has asked, and nothing is idle. -/
def start (routing : Routing) (maxIdlePerHost idleTimeout : Nat) (network : Network) : Traffic :=
  { broker := { routing, pool := { maxIdlePerHost, idleTimeout }, network } }

/-- What everybody has asked for, the first first. -/
def asked (t : Traffic) : List (ClientOptions × Outgoing) :=
  t.callers.map fun c => (c.options, c.request)

/-- The number of the connect that the link with a number came of. -/
def ticket? (t : Traffic) (id : Nat) : Option Nat := t.made.lookup id

/-- The numbers of the links that callers hold. -/
def held (t : Traffic) : List Nat := t.callers.filterMap (·.stage.link?)

/-- Every place a link can be in, idle or held, by the number of the link there. -/
def places (t : Traffic) : List Nat := t.broker.pool.idle.map (·.id) ++ t.held

/-! ### Moves -/

/-- A caller gets to another stage. -/
def turn (t : Traffic) (i : Nat) (c : Caller) (stage : Stage) : Traffic :=
  { t with callers := t.callers.set i { c with stage } }

def ask (t : Traffic) (options : ClientOptions) (request : Outgoing) : Traffic :=
  match t.broker.routing.route options request with
  | .error error => { t with callers := t.callers ++ [⟨options, request, .refused error⟩] }
  | .ok route =>
    { t with
      broker := { t.broker with network := t.broker.network.tick.2 }
      callers := t.callers ++ [⟨options, request, .choosing route⟩] }

/-- The generation is noted together with taking the link out. -/
def take (t : Traffic) (i : Nat) (c : Caller) (route : Route) : Traffic :=
  let (found, pool) := t.broker.pool.checkout t.broker.network.clock route.destination
  { t with broker := { t.broker with pool } }.turn i c (.afterTake route pool.generation found)

def probe (t : Traffic) (i : Nat) (c : Caller) (route : Route) (h : Handle) : Traffic :=
  let (stale, link, network) := t.broker.network.probe h.link
  { t with broker := { t.broker with network } }.turn i c <|
    if stale then .choosing route else .holding { h with link } none

def locate (t : Traffic) (i : Nat) (c : Caller) (route : Route) : Traffic :=
  t.turn i c (.afterLocate route
    (if c.options.cacheAddresses then t.broker.pool.address? (Acquire.endpoint route) else none))

def answer (t : Traffic) (i : Nat) (c : Caller) (route : Route) :
    Except IoError Address → Traffic
  | .error error => t.turn i c (.refused (.unresolved route.destination.host error))
  | .ok address =>
    let pool :=
      if c.options.cacheAddresses then t.broker.pool.remember (Acquire.endpoint route) address
      else t.broker.pool
    { t with broker := { t.broker with pool } }.turn i c (.located route address)

/-- The generation is noted together with starting the connect.  Callers take turns at every wait,
and here nothing is waited for between the two; but the pool is let go of, so that on several
threads somebody else could get in between.  Such runs are not among these. -/
def dial (t : Traffic) (i : Nat) (c : Caller) (route : Route) (address : Address) : Traffic :=
  let attempt := ⟨route, address, t.broker.pool.generation⟩
  { t with started := t.started ++ [attempt] }.turn i c (.connecting t.started.length attempt)

def connect (t : Traffic) (i : Nat) (c : Caller) (ticket : Nat) (attempt : Attempt) : Traffic :=
  match t.broker.connect attempt with
  | (.error error, broker) => { t with broker }.turn i c (.refused error)
  | (.ok h, broker) =>
    { t with broker, made := t.made ++ [(h.link.id, ticket)] }.turn i c (.holding h none)

/-- Stores how an exchange has stopped. -/
def settle (t : Traffic) (i : Nat) (c : Caller) : Exchange.Outcome × Handle × Broker → Traffic
  | (outcome, h, broker) => { t with broker }.turn i c (.holding h outcome.exchange?)

def drop (t : Traffic) (i : Nat) (c : Caller) (h : Handle) : Traffic :=
  { t with broker := t.broker.release h, returned := h :: t.returned }.turn i c .gone

def discard (t : Traffic) (i : Nat) (c : Caller) (h : Handle) : Traffic :=
  { t with broker := t.broker.discard h }.turn i c .gone

/-- A caller does something, if it is at the stage for it. -/
def act (t : Traffic) (i : Nat) (c : Caller) (deed : Deed) : Traffic :=
  match deed, c.stage with
  | .take, .choosing route => t.take i c route
  | .probe, .probing route h => t.probe i c route h
  | .locate, .lacking route => t.locate i c route
  | .answer result, .resolving route => t.answer i c route result
  | .dial, .located route address => t.dial i c route address
  | .connect, .connecting ticket attempt => t.connect i c ticket attempt
  | .cancel, .resolving _ => t.turn i c .gone
  | .cancel, .connecting _ _ => t.turn i c .gone
  | .send request, .holding h none => t.settle i c (t.broker.send false h request)
  | .resume, .holding h (some x) => t.settle i c (t.broker.resume h x)
  | .abandon, .holding h (some _) => t.turn i c (.holding h none)
  | .drop, .holding h none => t.drop i c h
  | .discard, .holding h none => t.discard i c h
  | _, _ => t

/-- What an action makes of things. -/
def step (t : Traffic) : Action → Traffic
  | .ask options request => t.ask options request
  | .caller i deed => match t.callers[i]? with
    | some c => t.act i c deed
    | none => t
  | .forget => { t with broker := t.broker.forget }
  | .reset => { t with broker := t.broker.reset }
  | .world network =>
    if t.broker.network.streams.size ≤ network.streams.size then
      { t with broker := { t.broker with network } }
    else t

/-- What a list of actions makes of things. -/
def run (t : Traffic) (actions : List Action) : Traffic := actions.foldl step t

/-- Someone asks for a page, finds no idle link and gets a new one. -/
def visit (i : Nat) (options : ClientOptions) (url : Url) : List Action :=
  [.ask options { url }, .caller i .take, .caller i .locate,
    .caller i (.answer (.ok (.loopback 3128))), .caller i .dial, .caller i .connect]

@[simp]
theorem run_nil (t : Traffic) : t.run [] = t := rfl

@[simp]
theorem run_cons (t : Traffic) (action : Action) (rest : List Action) :
    t.run (action :: rest) = (t.step action).run rest := rfl

theorem run_append (t : Traffic) (before after : List Action) :
    t.run (before ++ after) = (t.run before).run after := List.foldl_append

/-! ### One caller among the others -/

/-- What stands in a list with one more at the end stood there before, or is that one. -/
theorem getElem?_concat_cases {α : Type} {xs : List α} {a x : α} {k : Nat}
    (h : (xs ++ [a])[k]? = some x) : xs[k]? = some x ∨ (k = xs.length ∧ a = x) := by
  rcases Nat.lt_or_ge k xs.length with hlt | hge
  · rw [List.getElem?_append_left hlt] at h
    exact .inl h
  · have hk : k = xs.length := by
      have hlt := (List.getElem?_eq_some_iff.1 h).1
      rw [List.length_append, List.length_singleton] at hlt
      omega
    subst hk
    rw [List.getElem?_concat_length] at h
    exact .inr ⟨rfl, Option.some.inj h⟩

section Turn

variable {t : Traffic} {i : Nat} {c : Caller}

theorem asked_turn (h : t.callers[i]? = some c) (stage : Stage) :
    (t.turn i c stage).asked = t.asked := by
  obtain ⟨hi, rfl⟩ := List.getElem?_eq_some_iff.1 h
  have hasked : i < t.asked.length := by rw [asked, List.length_map]; exact hi
  have hself : t.asked[i] = (t.callers[i].options, t.callers[i].request) := List.getElem_map ..
  rw [asked, turn, List.map_set, ← hself]
  exact List.set_getElem_self hasked

theorem mem_callers_turn {d : Caller} {stage : Stage} (h : d ∈ (t.turn i c stage).callers) :
    d ∈ t.callers ∨ d = { c with stage } :=
  List.mem_or_eq_of_mem_set h

/-- The places of links are that of one caller and all the others. -/
theorem exists_places_perm (h : t.callers[i]? = some c) :
    ∃ others, t.places.Perm (c.stage.link?.toList ++ others) ∧
      ∀ stage, (t.turn i c stage).places.Perm (stage.link?.toList ++ others) := by
  obtain ⟨hi, hc⟩ := List.getElem?_eq_some_iff.1 h
  have hcons (d : Caller) (rest : List Caller) :
      (d :: rest).filterMap (·.stage.link?) =
        d.stage.link?.toList ++ rest.filterMap (·.stage.link?) := by
    rw [List.filterMap_cons]
    cases d.stage.link? <;> rfl
  have hheld (held idle link others : List Nat) (h : held.Perm (link ++ others)) :
      (idle ++ held).Perm (link ++ (idle ++ others)) :=
    (h.append_left idle).trans (List.perm_append_comm_assoc _ _ _)
  refine ⟨t.broker.pool.idle.map (·.id) ++ (t.callers.eraseIdx i).filterMap (·.stage.link?),
    hheld _ _ _ _ ?_, fun stage => hheld _ _ _ _ ?_⟩
  · rw [← hcons, ← hc]
    exact (List.getElem_cons_eraseIdx_perm hi).symm.filterMap _
  · refine ((List.set_perm_cons_eraseIdx hi _).filterMap _).trans ?_
    rw [hcons]

end Turn

end Traffic

end HttpExchange
