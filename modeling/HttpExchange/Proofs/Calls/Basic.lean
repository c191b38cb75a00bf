import Mathlib.Logic.Function.Basic
import HttpExchange.Call.Redirect
import HttpExchange.Proofs.Traffic.Strokes

/-!
# Calls over one pool, in any order

A call gets a link, sends its request, reads the reply, lets go of the link and perhaps does it all
again where a redirect leads.  Each round is a `Hop`, and a caller of the `Traffic`.  `Calls` is the
traffic with what every hop has come to, and with the record of what has passed on each link.

A `CallStep` lets one hop go on by one stroke, or gives one up where it waits: for the resolver, for
the connector, to write, to flush or to read.  The hop that is given up, because its time is over or
because it was called off, lets go of the link it holds.  Any list of steps is a run (`Calls.run`):
calls may be submitted at any time and take turns in any way.
-/

namespace HttpExchange

/-- What a hop has come to. -/
inductive HopState
  /-- It is getting a link, or has an exchange on it. -/
  | going
  /-- Its exchange is over; the link is still in its hand. -/
  | answered (result : Except CallError Reply)
  /-- It has a reply, and has let go of its link. -/
  | replied (reply : Reply)
  /-- Its reply has led to another hop. -/
  | followed
  /-- The call is over. -/
  | over (result : Except CallError Reply)

/-- What a hop that was at this has come to by the outcome of a stroke. -/
def HopState.after (state : HopState) : Exchange.Outcome → HopState
  | .finished result => .answered result
  | .waiting _ _ => state

theorem HopState.after_ne_over (outcome : Exchange.Outcome) (result : Except CallError Reply) :
    HopState.going.after outcome ≠ .over result := by
  cases outcome <;> simp [after]

/-- One round of a call: how many redirects may be followed, how many have been, and what it has
come to. -/
structure Hop where
  limit : Nat := 0
  redirects : Nat := 0
  state : HopState := .going

/-- The calls: their traffic, the hop of each caller, and what has passed on each link. -/
structure Calls where
  traffic : Traffic
  /-- How locations are read. -/
  join : Url.Joining
  hops : Nat → Hop := fun _ => {}
  record : Nat → List LinkEvent := fun _ => []

/-- What happens next. -/
inductive CallStep
  /-- A call begins. -/
  | submit (options : ClientOptions) (limit : Nat) (request : Outgoing)
  /-- The hop with that number goes on.  If it waits for the resolver, this is the answer. -/
  | goOn (number : Nat) (answer : Except IoError Address)
  /-- The hop is given up where it waits. -/
  | giveUp (number : Nat) (error : CallError)
  | forget
  | reset
  | world (network : Network)

namespace Calls

/-- The beginning: no call was made, and nothing is idle. -/
def start (join : Url.Joining) (routing : Routing) (maxIdlePerHost idleTimeout : Nat)
    (network : Network) : Calls :=
  { traffic := Traffic.start routing maxIdlePerHost idleTimeout network, join }

/-- A stroke that is no part of an exchange. -/
def stroke (u : Calls) (s : Stroke) : Calls := { u with traffic := u.traffic.stroke s }

/-- A deed of the caller with that number. -/
def deed (u : Calls) (i : Nat) (d : Deed) : Calls := u.stroke (.action (.caller i d))

/-- The hop with that number has come to something. -/
def setState (u : Calls) (i : Nat) (state : HopState) : Calls :=
  { u with hops := Function.update u.hops i { u.hops i with state } }

theorem state_setState (u : Calls) (i : Nat) (state : HopState) :
    ((u.setState i state).hops i).state = state := by
  show (Function.update u.hops i { u.hops i with state } i).state = state
  rw [Function.update_self]

/-- A hop begins. -/
def enter (u : Calls) (options : ClientOptions) (hop : Hop) (request : Outgoing) : Calls :=
  { u with
    traffic := u.traffic.stroke (.action (.ask options request))
    hops := Function.update u.hops u.traffic.callers.length hop }

/-- A stroke of an exchange: what passes is added to the record of the link. -/
def touch (u : Calls) (i : Nat) (h : Handle) (s : Stroke) (m : Exchange.Motion) : Calls :=
  { (u.setState i ((u.hops i).state.after m.progress.outcome)).stroke s with
    record := Function.update u.record h.link.id (u.record h.link.id ++ m.passed) }

/-- What a reply leads to. -/
def follow (u : Calls) (i : Nat) (c : Caller) (reply : Reply) : Calls :=
  let hop := u.hops i
  match Chain.onReply u.join c.options hop.limit ⟨c.request, hop.redirects⟩ reply with
  | .finished result => u.setState i (.over result)
  | .follow next =>
    (u.setState i .followed).enter c.options
      { limit := hop.limit, redirects := next.redirects } next.request

/-- The hop of a caller goes on. -/
def goOn (u : Calls) (i : Nat) (c : Caller) (answer : Except IoError Address) : Calls :=
  match (u.hops i).state, c.stage with
  | .going, .choosing _ => u.deed i .take
  | .going, .probing _ _ => u.deed i .probe
  | .going, .lacking _ => u.deed i .locate
  | .going, .resolving _ => u.deed i (.answer answer)
  | .going, .located _ _ => u.deed i .dial
  | .going, .connecting _ _ => u.deed i .connect
  | .going, .refused error => u.setState i (.over (.error error))
  | .going, .holding h none =>
    u.touch i h (.begin i c.request) (u.traffic.broker.begun h c.request)
  | .going, .holding h (some x) => u.touch i h (.move i) (u.traffic.broker.move h x)
  | .answered (.error error), .holding _ none => (u.setState i (.over (.error error))).deed i .drop
  | .answered (.ok reply), .holding _ none => (u.setState i (.replied reply)).deed i .drop
  | .replied reply, .gone => u.follow i c reply
  | _, _ => u

/-- The hop of a caller is given up, if it waits. -/
def giveUp (u : Calls) (i : Nat) (c : Caller) (error : CallError) : Calls :=
  match (u.hops i).state, c.stage with
  | .going, .resolving _ => (u.setState i (.over (.error error))).deed i .cancel
  | .going, .connecting _ _ => (u.setState i (.over (.error error))).deed i .cancel
  | .going, .holding _ (some _) =>
    ((u.setState i (.over (.error error))).deed i .abandon).deed i .drop
  | _, _ => u

/-- What a step makes of things. -/
def step (u : Calls) : CallStep → Calls
  | .submit options limit request => u.enter options { limit } request
  | .goOn i answer => match u.traffic.callers[i]? with
    | some c => u.goOn i c answer
    | none => u
  | .giveUp i error => match u.traffic.callers[i]? with
    | some c => u.giveUp i c error
    | none => u
  | .forget => u.stroke (.action .forget)
  | .reset => u.stroke (.action .reset)
  | .world network => u.stroke (.action (.world network))

/-- What a list of steps makes of things. -/
def run (u : Calls) (steps : List CallStep) : Calls := steps.foldl step u

@[simp]
theorem run_nil (u : Calls) : u.run [] = u := rfl

@[simp]
theorem run_cons (u : Calls) (s : CallStep) (rest : List CallStep) :
    u.run (s :: rest) = (u.step s).run rest := rfl

theorem run_concat (u : Calls) (steps : List CallStep) (s : CallStep) :
    u.run (steps ++ [s]) = (u.run steps).step s := by
  rw [run, List.foldl_append]
  rfl

/-! ### Who has asked -/

section Asked

variable {u : Calls} {i : Nat}

theorem asked_of_caller {c : Caller} (hc : u.traffic.callers[i]? = some c) :
    u.traffic.asked[i]? = some (c.options, c.request) := by
  rw [Traffic.asked, List.getElem?_map, hc]
  rfl

/-- After somebody came, whoever has asked had asked before, or is the one who came. -/
theorem asked_enter {options : ClientOptions} {hop : Hop} {request : Outgoing} {j : Nat}
    {ask : ClientOptions × Outgoing}
    (hask : (u.enter options hop request).traffic.asked[j]? = some ask) :
    (u.traffic.asked[j]? = some ask ∧ (u.enter options hop request).hops j = u.hops j) ∨
      (ask = (options, request) ∧ (u.enter options hop request).hops j = hop) := by
  have hasked : (u.enter options hop request).traffic.asked =
      u.traffic.asked ++ [(options, request)] := u.traffic.asked_ask options request
  have hlength : u.traffic.callers.length = u.traffic.asked.length := (List.length_map _).symm
  have hhops : (u.enter options hop request).hops =
      Function.update u.hops u.traffic.asked.length hop := by rw [← hlength]; rfl
  rw [hasked] at hask
  rw [hhops]
  obtain hold | ⟨rfl, heq⟩ := Traffic.getElem?_concat_cases hask
  · have hlt := (List.getElem?_eq_some_iff.1 hold).1
    exact .inl ⟨hold, Function.update_of_ne (Nat.ne_of_lt hlt) _ _⟩
  · exact .inr ⟨heq.symm, Function.update_self _ _ _⟩

end Asked

end Calls

end HttpExchange
