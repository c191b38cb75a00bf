import HttpExchange.Options
import HttpExchange.Outgoing

/-!
# Following redirects

A `Chain` is a call on its way: the request to send next and how many redirects led to it.
`Chain.onReply` decides what a reply means: the end of the call, or one more request.  A redirect
may turn the request into a `GET` without a body, and leaving a host takes the caller's credentials
off.  How a location is read against the URL it came from is left open.
-/

namespace HttpExchange

/-- The request to send next and the redirects followed so far. -/
structure Chain where
  request : Outgoing
  redirects : Nat := 0
  deriving DecidableEq, Repr

namespace Chain

/-- What a reply means for a call. -/
inductive Next
  | finished (result : Except CallError Reply)
  | follow (chain : Chain)
  deriving Repr

/-- Whether a redirect turns a request into a `GET`: after 303 always, after 301 and 302 if it was
a `POST`; a `HEAD` stays. -/
def becomesGet (status : Nat) (method : Method) : Bool :=
  (status == 303 || ((status == 301 || status == 302) && method == .post)) && method != .head

/-- The request as a `GET` without body. -/
def asGet (r : Outgoing) : Outgoing :=
  { r with method := .get, body := [], headers := r.headers.without "Content-Type" }

/-- The request without what the caller meant for one host alone. -/
def withoutCredentials (r : Outgoing) : Outgoing :=
  { r with headers := (r.headers.without "Authorization").without "Host" }

/-- The request that a redirect leads to. -/
def redirected (r : Outgoing) (status : Nat) (url : Url) : Outgoing :=
  let next := if becomesGet status r.method then asGet r else r
  let next := if url.hostText? = r.url.hostText? then next else withoutCredentials next
  { next with url }

/-- Takes a reply. -/
def onReply (join : Url.Joining) (o : ClientOptions) (limit : Nat) (c : Chain) (reply : Reply) :
    Next :=
  if o.followRedirects && reply.isRedirect then
    match reply.location? with
    | none => .finished (.ok reply)
    | some location =>
      if limit ≤ c.redirects then .finished (.error (.tooManyRedirects limit))
      else match join c.request.url location with
        | .error fault => .finished (.error (.badUrl (.unreadable location fault)))
        | .ok url => .follow ⟨redirected c.request reply.status url, c.redirects + 1⟩
  else .finished (.ok reply)

theorem redirects_of_follow {join : Url.Joining} {o : ClientOptions} {limit : Nat} {c d : Chain}
    {reply : Reply} (h : c.onReply join o limit reply = .follow d) :
    c.redirects < limit ∧ d.redirects = c.redirects + 1 := by
  simp only [onReply] at h
  repeat' split at h
  all_goals first | cases h; exact ⟨by omega, rfl⟩ | cases h

end Chain

end HttpExchange
