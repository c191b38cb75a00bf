import HttpExchange.Broker
import HttpExchange.Call.Redirect

/-!
# A call from wait to wait

A call gets a link, exchanges its request for a reply, gives the link back and perhaps does it all
again for a redirect.  `Turn` is what one hop comes to; `Pause` is a place where the call has to
wait, or its end.  Giving a link back after every hop is what keeps the pool in step: a link is
never held while the next one is asked for.
-/

namespace HttpExchange

/-- Where a call stops. -/
inductive Pause
  | finished (result : Except CallError Reply)
  /-- A connect has to be made. -/
  | connecting (chain : Chain) (attempt : Attempt)
  /-- The stream of its link makes it wait, perhaps until a known time. -/
  | exchanging (chain : Chain) (handle : Handle) (exchange : Exchange) (wake : Option Nat)

/-- What a hop comes to: a stop, or the next hop. -/
inductive Turn
  | stop (pause : Pause)
  | again (chain : Chain)

namespace Turn

/-- What follows an exchange.  Unless it waits, its link is given back. -/
def afterExchange (join : Url.Joining) (o : ClientOptions) (limit : Nat) (c : Chain)
    (outcome : Exchange.Outcome) (h : Handle) (b : Broker) : Turn × Broker :=
  match outcome with
  | .waiting x wake => (.stop (.exchanging c h x wake), b)
  | .finished (.error error) => (.stop (.finished (.error error)), b.release h)
  | .finished (.ok reply) => match c.onReply join o limit reply with
    | .finished result => (.stop (.finished result), b.release h)
    | .follow next => (.again next, b.release h)

/-- Sends the request of a call on a link it has got. -/
def exchange (join : Url.Joining) (o : ClientOptions) (limit : Nat) (c : Chain) (h : Handle)
    (b : Broker) : Turn × Broker :=
  let (outcome, h, b) := b.send false h c.request
  afterExchange join o limit c outcome h b

/-- One hop from its start. -/
def hop (join : Url.Joining) (o : ClientOptions) (limit : Nat) (c : Chain) (b : Broker) :
    Turn × Broker :=
  match b.request o c.request with
  | (.error error, b) => (.stop (.finished (.error error)), b)
  | (.ok (.inl h), b) => exchange join o limit c h b
  | (.ok (.inr attempt), b) => (.stop (.connecting c attempt), b)

theorem redirects_of_afterExchange {join : Url.Joining} {o : ClientOptions} {limit : Nat}
    {c d : Chain} {outcome : Exchange.Outcome} {h : Handle} {b b₁ : Broker}
    (hturn : afterExchange join o limit c outcome h b = (.again d, b₁)) :
    c.redirects < limit ∧ d.redirects = c.redirects + 1 := by
  simp only [afterExchange] at hturn
  split at hturn
  · simp at hturn
  · simp at hturn
  · split at hturn
    · simp at hturn
    · next hn =>
      simp only [Prod.mk.injEq, again.injEq] at hturn
      rw [hturn.1] at hn
      exact Chain.redirects_of_follow hn

theorem redirects_of_hop {join : Url.Joining} {o : ClientOptions} {limit : Nat} {c d : Chain}
    {b b₁ : Broker} (h : hop join o limit c b = (.again d, b₁)) :
    c.redirects < limit ∧ d.redirects = c.redirects + 1 := by
  simp only [hop] at h
  split at h
  · simp at h
  · exact redirects_of_afterExchange h
  · simp at h

/-- Makes hops until a stop. -/
def hops (join : Url.Joining) (o : ClientOptions) (limit : Nat) (c : Chain) (b : Broker) :
    Pause × Broker :=
  match _h : hop join o limit c b with
  | (.stop pause, b) => (pause, b)
  | (.again next, b) => hops join o limit next b
termination_by limit - c.redirects
decreasing_by
  have := redirects_of_hop _h
  omega

/-- Goes on from a turn to a stop. -/
def toPause (join : Url.Joining) (o : ClientOptions) (limit : Nat) :
    Turn × Broker → Pause × Broker
  | (.stop pause, b) => (pause, b)
  | (.again next, b) => hops join o limit next b

end Turn

end HttpExchange
