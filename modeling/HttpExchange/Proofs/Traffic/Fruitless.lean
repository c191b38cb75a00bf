import HttpExchange.Proofs.Pool.Beside
import HttpExchange.Proofs.Traffic.Newest

/-!
# A request for a link that fails

Getting a link may fail in five places, each time with more done before it.  What is left behind is
little, and nothing that others would notice:

* `Routing.Refuses` / `route_eq_error_iff` — why a request has no way: what is wrong with its URL or
  with that of the proxy, in the order in which it is looked at;
* `Broker.Fails` / `fails_of_error` — in which ways getting a link fails, and what each of them
  leaves of the pool and the world;
* `Traffic.strokes_fruitless` — what that means for the pool, whatever has happened before, and for
  everybody who goes elsewhere.
-/

namespace HttpExchange

namespace Routing

/-! ### Requests without a way -/

/-- What is wrong where the URL that says where a request goes has no host. -/
def hostless (m : Routing) (o : ClientOptions) (r : Outgoing) : UrlProblem :=
  if m.forwards o then .proxyWithoutHost (m.goal o r).text else .noHost (m.goal o r).text

/-- What is wrong where it has no port, and its scheme implies none. -/
def portless (m : Routing) (o : ClientOptions) (r : Outgoing) : UrlProblem :=
  if m.forwards o then .proxyWithoutPort (m.goal o r).text else .noPort (m.goal o r).text

/-- A request may be sent on: links can be made in the scheme of its URL, and if it is to be
forwarded, that scheme is `http`. -/
structure Admits (m : Routing) (o : ClientOptions) (r : Outgoing) : Prop where
  scheme : m.supports r.url.scheme = true
  forwards : m.forwards o = true → r.url.scheme = "http"

/-- Why a request has no way. -/
inductive Refuses (m : Routing) (o : ClientOptions) (r : Outgoing) : CallError → Prop
  /-- No links are made in the scheme of its URL. -/
  | scheme (h : m.supports r.url.scheme = false) : Refuses m o r (.unsupportedScheme r.url.scheme)
  /-- It is to be forwarded, which is done for `http` URLs only. -/
  | forwarding (known : m.supports r.url.scheme = true) (forwards : m.forwards o = true)
      (h : r.url.scheme ≠ "http") : Refuses m o r (.unsupportedScheme r.url.scheme)
  | host (admits : m.Admits o r) (h : (m.goal o r).hostText? = none) :
      Refuses m o r (.badUrl (m.hostless o r))
  | port (admits : m.Admits o r) (host : (m.goal o r).hostText? ≠ none)
      (h : (m.goal o r).effectivePort? = none) : Refuses m o r (.badUrl (m.portless o r))
  /-- No links are made in the scheme of the URL that says where it goes. -/
  | way (admits : m.Admits o r) {d : Destination} (names : (m.goal o r).Names d)
      (h : m.supports d.scheme = false) : Refuses m o r (.unsupportedScheme d.scheme)

variable {m : Routing} {o : ClientOptions} {r : Outgoing} {error : CallError}

/-- Where a request goes, read off one URL. -/
theorem target_eq (m : Routing) (o : ClientOptions) (r : Outgoing) :
    m.target o r =
      if m.forwards o = true ∧ r.url.scheme ≠ "http" then .error (.unsupportedScheme r.url.scheme)
      else match (m.goal o r).hostText?, (m.goal o r).effectivePort? with
        | none, _ => .error (.badUrl (m.hostless o r))
        | some _, none => .error (.badUrl (m.portless o r))
        | some host, some port => .ok ⟨⟨(m.goal o r).scheme, host, port⟩, m.forwards o⟩ := by
  have horigin : toOrigin r = match r.url.hostText?, r.url.effectivePort? with
      | none, _ => .error (.badUrl (.noHost r.url.text))
      | some _, none => .error (.badUrl (.noPort r.url.text))
      | some host, some port => .ok ⟨⟨r.url.scheme, host, port⟩, false⟩ := by
    rw [toOrigin, Outgoing.host, Outgoing.port]
    cases r.url.hostText? with
    | none => rfl
    | some host => cases r.url.effectivePort? <;> rfl
  rw [target, hostless, portless, goal, forwards]
  cases m.proxy with
  | none =>
    rw [Option.isSome_none, Bool.and_false, if_neg (by simp), Option.getD_none, ite_self]
    exact horigin
  | some proxy =>
    rw [Option.isSome_some, Bool.and_true, Option.getD_some]
    cases o.useProxy with
    | false => exact horigin
    | true =>
      by_cases hscheme : r.url.scheme = "http"
      · rw [if_neg (fun h => h.2 hscheme), hscheme]
        rfl
      · rw [if_pos ⟨rfl, hscheme⟩]
        exact if_neg fun h => hscheme (beq_iff_eq.1 h)

/-- Neither scheme nor proxy keep a request from being sent on that is admitted. -/
theorem Admits.passes (h : m.Admits o r) : ¬(m.forwards o = true ∧ r.url.scheme ≠ "http") :=
  fun hforwarding => hforwarding.2 (h.forwards hforwarding.1)

/-- The reasons are looked at in the order in which they stand. -/
theorem refuses_of_route (h : m.route o r = .error error) : m.Refuses o r error := by
  rw [route, target_eq] at h
  split at h
  case isFalse hscheme =>
    cases h
    exact .scheme (eq_false_of_ne_true hscheme)
  case isTrue hscheme =>
    by_cases hforwarding : m.forwards o = true ∧ r.url.scheme ≠ "http"
    · rw [if_pos hforwarding] at h
      cases h
      exact .forwarding hscheme hforwarding.1 hforwarding.2
    · have hadmits : m.Admits o r := ⟨hscheme, fun hforwards =>
        not_not.1 fun hne => hforwarding ⟨hforwards, hne⟩⟩
      rw [if_neg hforwarding] at h
      cases hhost : (m.goal o r).hostText? with
      | none =>
        rw [hhost] at h
        cases h
        exact .host hadmits hhost
      | some host =>
        cases hport : (m.goal o r).effectivePort? with
        | none =>
          rw [hhost, hport] at h
          cases h
          exact .port hadmits (by rw [hhost]; exact Option.some_ne_none _) hport
        | some port =>
          rw [hhost, hport] at h
          dsimp only at h
          split at h
          · cases h
          · next hway =>
            cases h
            exact .way hadmits (d := ⟨(m.goal o r).scheme, host, port⟩) ⟨rfl, hhost, hport⟩
              (eq_false_of_ne_true hway)

/-- Each of the reasons is one. -/
theorem route_of_refuses (h : m.Refuses o r error) : m.route o r = .error error := by
  rw [route, target_eq]
  cases h with
  | scheme h => rw [if_neg (ne_true_of_eq_false h)]
  | forwarding known forwards h => rw [if_pos known, if_pos ⟨forwards, h⟩]
  | host admits h => rw [if_pos admits.scheme, if_neg admits.passes, h]
  | port admits host h =>
    obtain ⟨host, hhost⟩ := Option.ne_none_iff_exists'.1 host
    rw [if_pos admits.scheme, if_neg admits.passes, hhost, h]
  | way admits names h =>
    obtain ⟨hscheme, hhost, hport⟩ := names
    rw [if_pos admits.scheme, if_neg admits.passes, hhost, hport]
    dsimp only
    rw [hscheme] at h
    rw [if_neg (ne_true_of_eq_false h), hscheme]

/-- **A request has no way for one of these reasons**, and for no other. -/
theorem route_eq_error_iff : m.route o r = .error error ↔ m.Refuses o r error :=
  ⟨refuses_of_route, route_of_refuses⟩

end Routing

namespace Pool

/-- The pool once it keeps an address, if there is one to keep. -/
def keep (p : Pool) (e : Endpoint) : Option Address → Pool
  | none => p
  | some a => p.remember e a

theorem sameBeside_keep (p : Pool) (e : Endpoint) (a : Option Address) :
    p.SameBeside e (p.keep e a) := by
  cases a with
  | none => exact .refl e p
  | some a =>
    refine ⟨fun _ _ => rfl, fun f hf => ?_, rfl, rfl⟩
    rw [keep, address?_remember, if_neg hf]

theorem address?_keep (p : Pool) (e f : Endpoint) (a : Option Address) :
    (p.keep e a).address? f = if f = e then a.or (p.address? f) else p.address? f := by
  cases a with
  | none =>
    rw [Option.none_or, ite_self]
    rfl
  | some a =>
    rw [keep, address?_remember]
    rfl

end Pool

namespace Broker

/-! ### What a failure leaves behind -/

/-- The links on a shelf, none of which can be used again, are gone, and the other shelves are as
they were. -/
structure Empties (b : Broker) (d : Destination) (after : Broker) : Prop where
  unusable : ∀ link ∈ b.pool.idleTo d, b.live link = false
  shelf : after.pool.idleTo d = []
  others : ∀ c, c ≠ d → after.pool.idleTo c = b.pool.idleTo c

/-- How the address for a route was found, and what of that is kept. -/
inductive Learns (b : Broker) (o : ClientOptions) (route : Route) (a : Address) (after : Broker) :
    Prop
  /-- It was kept from before. -/
  | knew (known : b.known? o route = some a)
      (lookups : after.network.lookups = b.network.lookups)
      (addresses : ∀ f, after.pool.address? f = b.pool.address? f)
  /-- It was looked up, and is kept if the caller said so. -/
  | looked (unknown : b.known? o route = none)
      (answer : (b.network.lookup (Acquire.endpoint route)).1 = .ok a)
      (lookups : after.network.lookups = b.network.lookups ++ [Acquire.endpoint route])
      (addresses : ∀ f, after.pool.address? f =
        if o.cacheAddresses = true ∧ f = Acquire.endpoint route then some a
        else b.pool.address? f)

/-- In what way getting a link has failed, and what has come of the pool and the world. -/
inductive Fails (b : Broker) (o : ClientOptions) (r : Outgoing) (after : Broker) :
    CallError → Prop
  /-- The request has no way, and nothing at all has happened. -/
  | refused {error : CallError} (reason : b.routing.Refuses o r error) (same : after = b) :
      Fails b o r after error
  /-- There was no link and no address, and the one lookup that was made has failed. -/
  | unresolved {route : Route} {failure : IoError} (way : b.routing.route o r = .ok route)
      (empties : b.Empties route.destination after) (unknown : b.known? o route = none)
      (answer : (b.network.lookup (Acquire.endpoint route)).1 = .error failure)
      (lookups : after.network.lookups = b.network.lookups ++ [Acquire.endpoint route])
      (connects : after.network.connects = b.network.connects)
      (addresses : ∀ f, after.pool.address? f = b.pool.address? f) :
      Fails b o r after (.unresolved route.destination.host failure)
  /-- There was no link, and the one connect that was made has failed. -/
  | unconnected {route : Route} {address : Address} {failure : IoError}
      (way : b.routing.route o r = .ok route) (empties : b.Empties route.destination after)
      (learns : b.Learns o route address after)
      (connects : after.network.connects = b.network.connects ++ [(route.destination, address)])
      (answer : (b.network.connect route.destination address).1 = .error failure) :
      Fails b o r after (.unconnected address failure)

variable {b : Broker} {o : ClientOptions} {r : Outgoing} {route : Route} {error : CallError}

/-- The address that is kept of those which had to be looked up. -/
def keeps? (b : Broker) (o : ClientOptions) (route : Route) : Option Address :=
  if o.cacheAddresses && (b.known? o route).isNone then
    (b.network.lookup (Acquire.endpoint route)).1.toOption
  else none

theorem acquire_of_refused (h : b.routing.route o r = .error error) :
    b.acquire o r = (.error error, b) := by
  rw [acquire, request, Acquire.begin, h]
  rfl

/-- What is left of the pool where the search has found none: what the search has left, and an
address if one is kept. -/
theorem pool_acquire_of_none {passed : List Link} {q : Pool} {m : Network}
    (hroute : b.routing.route o r = .ok route)
    (htake : Acquire.takeLive route.destination b.pool b.network.tick.2 = (none, q, m))
    (htakes : Acquire.Takes route.destination b.pool b.network.tick.2 passed none q m) :
    (b.acquire o r).2.routing = b.routing ∧
      (b.acquire o r).2.pool = q.keep (Acquire.endpoint route) (b.keeps? o route) := by
  have hknown : (b.become q m).known? o route = b.known? o route := by
    rw [known?, known?, become, Pool.address?, Pool.address?, htakes.addresses]
  have hlookup : (m.lookup (Acquire.endpoint route)).1 =
      (b.network.lookup (Acquire.endpoint route)).1 := by
    obtain ⟨streams, rfl⟩ := htakes.network.same
    rfl
  rw [acquire_of_none hroute htake, hknown, hlookup, keeps?]
  cases b.known? o route with
  | some a =>
    rw [Option.isNone_some, Bool.and_false, if_neg Bool.false_ne_true]
    exact ⟨rfl, rfl⟩
  | none =>
    rw [Option.isNone_none, Bool.and_true]
    cases (b.network.lookup (Acquire.endpoint route)).1 with
    | error failure => cases o.cacheAddresses <;> exact ⟨rfl, rfl⟩
    | ok a => cases o.cacheAddresses <;> exact ⟨rfl, rfl⟩

/-- Whoever goes elsewhere has the same pool, and so has everyone but for the address that is
kept. -/
theorem kept_of_none {passed : List Link} {q : Pool} {m : Network}
    (hroute : b.routing.route o r = .ok route)
    (htake : Acquire.takeLive route.destination b.pool b.network.tick.2 = (none, q, m))
    (htakes : Acquire.Takes route.destination b.pool b.network.tick.2 passed none q m) :
    b.pool.SameBeside (Acquire.endpoint route) (b.acquire o r).2.pool ∧
      ∀ f, (b.acquire o r).2.pool.address? f = if f = Acquire.endpoint route then
        (b.keeps? o route).or (b.pool.address? f) else b.pool.address? f := by
  have haddress (f : Endpoint) : q.address? f = b.pool.address? f := by
    rw [Pool.address?, Pool.address?, htakes.addresses]
  have hbeside : b.pool.SameBeside (Acquire.endpoint route) q :=
    ⟨fun d hd => htakes.others d fun heq => hd (by rw [heq]; rfl), fun f _ => haddress f,
      htakes.generation, htakes.idleTimeout⟩
  rw [(pool_acquire_of_none hroute htake htakes).2]
  refine ⟨hbeside.trans (q.sameBeside_keep _ _), fun f => ?_⟩
  rw [Pool.address?_keep, haddress]

/-- **A connect that leads to no link has failed**, and its failure is the answer. -/
theorem Connects.failed {a : Address} {after : Broker}
    (h : b.Connects route a (.error error) after) :
    ∃ failure, error = .unconnected a failure ∧
      (b.network.connect route.destination a).1 = .error failure := by
  have hanswered := h.answered
  cases hanswer : (b.network.connect route.destination a).1 with
  | error failure =>
    rw [hanswer] at hanswered
    cases hanswered
    exact ⟨failure, rfl, rfl⟩
  | ok id =>
    rw [hanswer] at hanswered
    cases hanswered

/-- In what way it fails where no link was found. -/
theorem fails_of_replaces {after : Broker} (hroute : b.routing.route o r = .ok route)
    (hempties : b.Empties route.destination after)
    (haddress : ∀ f, after.pool.address? f = if f = Acquire.endpoint route then
      (b.keeps? o route).or (b.pool.address? f) else b.pool.address? f)
    (h : b.Replaces o route (.error error) after) : b.Fails o r after error := by
  -- Where nothing is kept, every address is as it was.
  have hsame (hnone : b.keeps? o route = none) (f : Endpoint) :
      after.pool.address? f = b.pool.address? f := by
    rw [haddress f, hnone, Option.none_or, ite_self]
  cases hknown : b.known? o route with
  | some a =>
    obtain ⟨hlookups, hconnects⟩ := h.known a hknown
    obtain ⟨failure, rfl, hanswer⟩ := hconnects.failed
    have hnone : b.keeps? o route = none := by
      rw [keeps?, hknown, Option.isNone_some, Bool.and_false, if_neg Bool.false_ne_true]
    exact .unconnected hroute hempties (.knew hknown hlookups (hsame hnone)) hconnects.connects
      hanswer
  | none =>
    have hlookups := h.asked hknown
    cases hanswer : (b.network.lookup (Acquire.endpoint route)).1 with
    | error failure =>
      obtain ⟨heq, hconnects⟩ := h.unresolved hknown failure hanswer
      cases heq
      have hnone : b.keeps? o route = none := by
        rw [keeps?, hanswer]
        split <;> rfl
      exact .unresolved hroute hempties hknown hanswer hlookups hconnects (hsame hnone)
    | ok a =>
      have hconnects := h.located hknown a hanswer
      obtain ⟨failure, rfl, hfailure⟩ := hconnects.failed
      refine .unconnected hroute hempties (.looked hknown hanswer hlookups fun f => ?_)
        hconnects.connects hfailure
      rw [haddress f, keeps?, hknown, Option.isNone_none, Bool.and_true, hanswer]
      cases o.cacheAddresses with
      | false => simp
      | true => simp [Except.toOption]

/-- **In what ways getting a link fails**, in a pool whose links are all different and hold
nothing.  Whichever it is, what the pool holds for everybody else is what it held. -/
theorem fails_of_error
    (hdistinct : ∀ d, ((b.pool.idleTo d).map (·.id)).Nodup)
    (hclean : ∀ d, ∀ link ∈ b.pool.idleTo d, link.buffer = [])
    (h : (b.acquire o r).1 = .error error) :
    b.Fails o r (b.acquire o r).2 error ∧ (b.acquire o r).2.routing = b.routing ∧
      (b.acquire o r).2.pool.generation = b.pool.generation ∧
      ∀ f, (∀ route, b.routing.route o r = .ok route → Acquire.endpoint route ≠ f) →
        ∃ e, f ≠ e ∧ b.pool.SameBeside e (b.acquire o r).2.pool := by
  cases hroute : b.routing.route o r with
  | error reason =>
    rw [acquire_of_refused hroute] at h ⊢
    cases h
    refine ⟨.refused (Routing.route_eq_error_iff.1 hroute) rfl, rfl, rfl, fun f _ => ?_⟩
    -- Nothing has changed anywhere, so that any other endpoint will do.
    exact ⟨(f.1, f.2 + 1), fun heq => Nat.succ_ne_self f.2 (congrArg Prod.snd heq).symm, .refl _ _⟩
  | ok route =>
    obtain ⟨passed, htakes⟩ := Acquire.exists_takes (n := b.network.tick.2)
      (hdistinct route.destination) (hclean route.destination)
    generalize htake : Acquire.takeLive route.destination b.pool b.network.tick.2 = taken at htakes
    obtain ⟨found, q, m⟩ := taken
    cases found with
    | some link =>
      rw [acquire_of_found hroute htake] at h
      cases h
    | none =>
      obtain ⟨hrouting, -⟩ := pool_acquire_of_none hroute htake htakes
      obtain ⟨hbeside, haddress⟩ := kept_of_none hroute htake htakes
      obtain ⟨hidle, hreplaces⟩ := replaces_of_none hroute htake htakes
      have hall : b.pool.idleTo route.destination = passed := by
        have hall := htakes.picks.all
        rw [htakes.picks.emptied rfl] at hall
        simpa using hall
      have hempties : b.Empties route.destination (b.acquire o r).2 :=
        ⟨by rw [hall]; exact htakes.picks.unfit, hreplaces.shelf,
          fun c hc => (hidle c).trans (htakes.others c hc)⟩
      rw [h] at hreplaces
      exact ⟨fails_of_replaces hroute hempties haddress hreplaces, hrouting, hbeside.generation,
        fun f hf => ⟨_, (hf route rfl).symm, hbeside⟩⟩

/-- Whatever the failure, no link has been added to a shelf. -/
theorem Fails.sublist {after : Broker} (h : b.Fails o r after error) (d : Destination) :
    (after.pool.idleTo d).Sublist (b.pool.idleTo d) := by
  have hempties {e : Destination} (h : b.Empties e after) :
      (after.pool.idleTo d).Sublist (b.pool.idleTo d) := by
    by_cases hd : d = e
    · rw [hd, h.shelf]
      exact List.nil_sublist _
    · rw [h.others d hd]
  cases h with
  | refused reason same => rw [same]
  | unresolved way empties => exact hempties empties
  | unconnected way empties => exact hempties empties

end Broker

namespace Traffic

/-- **Getting a link that fails leaves the pool intact.**  In any run, when getting a link gives a
failure: either the request has no way, and nothing has happened at all; or the idle links on the
shelf that it goes to, none of which could be used again, are gone, and the address could not be
looked up, or could be but the one connect to it failed.  An address that was looked up is kept if
the caller said so, and all the others are as they were.  The generation is what it was, and there
is no idle link that was not there before.  Whoever goes to another host or port afterwards finds
the same idle links and the same address, and getting a link comes to the same, in whatever world,
as if the failed call had not been made. -/
theorem strokes_fruitless (routing : Routing) (maxIdlePerHost idleTimeout : Nat)
    (network : Network) (list : List Stroke) {o : ClientOptions} {r : Outgoing}
    {error : CallError} :
    let b := ((start routing maxIdlePerHost idleTimeout network).strokes list).broker
    let after := (b.acquire o r).2
    (b.acquire o r).1 = .error error →
      b.Fails o r after error ∧
      after.pool.generation = b.pool.generation ∧
      (∀ d, (after.pool.idleTo d).Sublist (b.pool.idleTo d)) ∧
      ∀ (o' : ClientOptions) (r' : Outgoing) (route' : Route),
        routing.route o' r' = .ok route' →
        (∀ route, routing.route o r = .ok route →
          Acquire.endpoint route ≠ Acquire.endpoint route') →
        after.pool.idleTo route'.destination = b.pool.idleTo route'.destination ∧
        after.pool.address? (Acquire.endpoint route') =
          b.pool.address? (Acquire.endpoint route') ∧
        ∀ m, ({ after with network := m }.acquire o' r').1 =
            ({ b with network := m }.acquire o' r').1 ∧
          ({ after with network := m }.acquire o' r').2.network =
            ({ b with network := m }.acquire o' r').2.network := by
  intro b after h
  have hw : (start routing maxIdlePerHost idleTimeout network).Sound :=
    sound_start routing maxIdlePerHost idleTimeout network
  have hs := sound_strokes hw list
  have hrouting : b.routing = routing := (later_strokes hw list).routing
  obtain ⟨hfails, hafter, hgeneration, hbeside⟩ :=
    b.fails_of_error hs.distinct_ids (fun d _ => hs.empty_buffers d) h
  refine ⟨hfails, hgeneration, hfails.sublist, fun o' r' route' hroute' hne => ?_⟩
  rw [← hrouting] at hroute' hne
  obtain ⟨e, he, hsame⟩ := hbeside _ hne
  refine ⟨hsame.idleTo _ he, hsame.address _ he, fun m => ?_⟩
  obtain ⟨hresult, hnetwork, -⟩ :=
    Broker.acquire_beside (b := { b with network := m }) (c := { after with network := m })
      hafter rfl hsame hroute' he
  exact ⟨hresult, hnetwork⟩

/-- A page on another host. -/
def otherPage : Url := { scheme := "http", host := some (.name "example.org") }

/-- The way to it. -/
def otherRoute : Route := ⟨⟨"http", "example.org", 80⟩, false⟩

/-- Two far ends, the first of which sends what nobody has asked for, and one that refuses. -/
def lastRefuses : Network where
  dials := [.opens { reads := [.data [0x21], .hang] }, .opens { reads := [.hang] },
    .refuses ⟨.other, "refused"⟩]

/-- Links to two hosts are made, and put back. -/
def twoReturns : List Stroke :=
  (visit 0 {} page ++ visit 1 {} otherPage ++
    [Action.caller 0 .drop, .caller 1 .drop]).map .action

/-- What has come of that. -/
def twoIdle : Traffic := (start {} 8 90000 lastRefuses).strokes twoReturns

/-- The link to the other host. -/
def otherIdle : Link where
  id := 1
  destination := otherRoute.destination
  address := .loopback 3128
  idleSince := 3

theorem shelf_twoIdle : twoIdle.broker.pool.idleTo pageRoute.destination = [backAt 0 2] := by
  decide

/-- The one link to the page cannot be used again, and a new one cannot be had. -/
theorem acquire_twoIdle : (twoIdle.broker.acquire caching { url := page }).1 =
    .error (.unconnected (.loopback 80) ⟨.other, "refused"⟩) := by
  let b := twoIdle.broker
  have hs : twoIdle.Sound := sound_strokes (sound_start {} 8 90000 lastRefuses) twoReturns
  have hroute : b.routing.route caching { url := page } = .ok pageRoute := by decide
  have hspeaks : b.live (backAt 0 2) = false := by
    have hreads : (b.network.stream 0).reads = [.data [0x21], .hang] := by decide
    rw [Broker.live_eq, show (backAt 0 2).id = 0 from rfl, Stream.readable_of_data _ hreads,
      Bool.not_true, Bool.and_false]
  obtain ⟨-, ⟨newer, link, hreuses⟩ | ⟨-, hreplaces⟩⟩ :=
    Broker.reuses_or_replaces hroute (hs.distinct_ids _) fun _ => hs.empty_buffers _
  · have hlink : link ∈ b.pool.idleTo pageRoute.destination := by
      rw [hreuses.shelf]
      simp
    rw [show b.pool.idleTo pageRoute.destination = _ from shelf_twoIdle,
      List.mem_singleton] at hlink
    cases (hlink ▸ hspeaks).symm.trans hreuses.live
  · exact (hreplaces.located (by decide) (.loopback 80) (by decide)).answered

/-- A link that cannot be used again is dropped, and the connect in its place fails; what was looked
up for it is kept, and a link to another host is still there. -/
theorem strokes_fruitless_page :
    let b := twoIdle.broker
    let after := (b.acquire caching { url := page }).2
    (b.acquire caching { url := page }).1 =
        .error (.unconnected (.loopback 80) ⟨.other, "refused"⟩) ∧
      after.pool.idleTo pageRoute.destination = [] ∧
      after.pool.address? pageEndpoint = some (.loopback 80) ∧
      after.pool.idleTo otherRoute.destination = [otherIdle] := by
  intro b after
  have hroute : b.routing.route caching { url := page } = .ok pageRoute := by decide
  have hway : Routing.route {} {} { url := otherPage } = .ok otherRoute := by decide
  have hne : ∀ route, Routing.route {} caching { url := page } = .ok route →
      Acquire.endpoint route ≠ Acquire.endpoint otherRoute := by
    intro route h
    cases (show Routing.route {} caching { url := page } = .ok pageRoute by decide).symm.trans h
    decide
  obtain ⟨hfails, -, -, helsewhere⟩ :=
    strokes_fruitless {} 8 90000 lastRefuses twoReturns acquire_twoIdle
  obtain ⟨hother, -⟩ := helsewhere {} { url := otherPage } otherRoute hway hne
  have hidle : b.pool.idleTo otherRoute.destination = [otherIdle] := by decide
  refine ⟨acquire_twoIdle, ?_, ?_, hother.trans hidle⟩
  all_goals
    cases hfails with
    | refused reason =>
      cases hroute.symm.trans (Routing.route_eq_error_iff.2 reason)
    | unconnected way empties learns =>
      cases hroute.symm.trans way
      cases learns with
      | knew known => cases known
      | looked unknown answer lookups addresses =>
        first | exact empties.shelf | exact addresses pageEndpoint

end Traffic

end HttpExchange
