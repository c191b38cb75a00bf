import HttpExchange.Proofs.Traffic.Custody

/-!
# Whose links go through a proxy

A link remembers whether it was made to go through a proxy, but idle links are looked up by their
destination only.  So a link that was made for a direct request to the proxy's own host and port is
found again by a request that is to be forwarded, which is then not written in absolute form
(`run_viaProxy_fails`).

The two kinds of links never meet as long as nobody asks directly for what is at the proxy's own
destination (`Routing.Apart`); and a link that is new always fits.

* `run_viaProxy` — whose links go through the proxy, after any run.
-/

namespace HttpExchange

namespace Routing

/-- Whether requests with these options are forwarded by a proxy. -/
def forwards (m : Routing) (o : ClientOptions) : Bool := o.useProxy && m.proxy.isSome

/-- Nobody who goes to an origin directly goes to where the proxy is. -/
def Apart (m : Routing) (asked : List (ClientOptions × Outgoing)) : Prop :=
  ∀ proxy proxied, m.proxy = some proxy → toProxy proxy = .ok proxied →
    ∀ ask ∈ asked, m.forwards ask.1 = false →
      ∀ direct, m.route ask.1 ask.2 = .ok direct → direct.destination ≠ proxied.destination

theorem viaProxy_toProxy {proxy : Url} {route : Route} (h : toProxy proxy = .ok route) :
    route.viaProxy = true := by
  rw [toProxy] at h
  split at h <;> cases h
  rfl

theorem viaProxy_toOrigin {r : Outgoing} {route : Route} (h : toOrigin r = .ok route) :
    route.viaProxy = false := by
  rw [toOrigin] at h
  cases hhost : r.host with
  | error => rw [hhost] at h; cases h
  | ok host =>
    cases hport : r.port with
    | error => rw [hhost, hport] at h; cases h
    | ok port =>
      rw [hhost, hport] at h
      cases h
      rfl

/-- A forwarded request is one to an `http` URL and goes to the proxy, any other to its origin. -/
theorem route_cases {m : Routing} {o : ClientOptions} {r : Outgoing} {route : Route}
    (h : m.route o r = .ok route) :
    (m.forwards o = true ∧ r.url.scheme = "http" ∧
        ∃ proxy, m.proxy = some proxy ∧ toProxy proxy = .ok route) ∨
      (m.forwards o = false ∧ toOrigin r = .ok route) := by
  have htarget : m.target o r = .ok route := by
    rw [Routing.route] at h
    split at h
    · split at h
      · cases h
      · next htarget =>
        split at h <;> cases h
        exact htarget
    · cases h
  rw [target] at htarget
  rw [forwards]
  cases hproxy : m.proxy with
  | none =>
    rw [hproxy] at htarget
    exact .inr ⟨Bool.and_false _, htarget⟩
  | some proxy =>
    rw [hproxy] at htarget
    cases huse : o.useProxy with
    | false =>
      rw [huse] at htarget
      exact .inr ⟨rfl, htarget⟩
    | true =>
      rw [huse] at htarget
      dsimp only at htarget
      rw [if_pos rfl] at htarget
      split at htarget
      · next hscheme => exact .inl ⟨rfl, beq_iff_eq.1 hscheme, proxy, rfl, htarget⟩
      · cases htarget

/-- The way of a request goes through a proxy just when the request is forwarded. -/
theorem viaProxy_route {m : Routing} {o : ClientOptions} {r : Outgoing} {route : Route}
    (h : m.route o r = .ok route) : route.viaProxy = m.forwards o := by
  obtain ⟨hforwards, -, proxy, -, hroute⟩ | ⟨hforwards, hroute⟩ := route_cases h
  · rw [hforwards, viaProxy_toProxy hroute]
  · rw [hforwards, viaProxy_toOrigin hroute]

/-- Ways to one destination agree on the proxy, unless somebody goes there directly. -/
theorem Apart.viaProxy_eq {m : Routing} {asked : List (ClientOptions × Outgoing)} (h : m.Apart asked)
    {one other : ClientOptions × Outgoing} (hone : one ∈ asked) (hother : other ∈ asked)
    {a b : Route} (ha : m.route one.1 one.2 = .ok a) (hb : m.route other.1 other.2 = .ok b)
    (hdestination : a.destination = b.destination) : a.viaProxy = b.viaProxy := by
  rw [viaProxy_route ha, viaProxy_route hb]
  obtain ⟨hforwards, -, proxy, hproxy, hroute⟩ | ⟨hforwards, -⟩ := route_cases ha
  all_goals obtain ⟨hforwards', -, proxy', hproxy', hroute'⟩ | ⟨hforwards', -⟩ := route_cases hb
  · rw [hforwards, hforwards']
  · exact absurd hdestination.symm (h proxy a hproxy hroute other hother hforwards' b hb)
  · exact absurd hdestination (h proxy' b hproxy' hroute' one hone hforwards a ha)
  · rw [hforwards, hforwards']

end Routing

namespace Traffic

variable {t : Traffic} {i : Nat} {c : Caller}

/-- **What a caller holds goes through the proxy just when its request is forwarded**, if the link
is new, or if nobody asks directly for what is where the proxy is. -/
theorem Sound.viaProxy_eq (hs : t.Sound) (hc : t.callers[i]? = some c) {h : Handle}
    {exchange : Option Exchange} (hstage : c.stage = .holding h exchange)
    (hfits : h.reused = false ∨ t.broker.routing.Apart t.asked) :
    h.link.viaProxy = t.broker.routing.forwards c.options := by
  obtain ⟨route, hgoes, hserves, -⟩ := hs.fits_stage hc hstage
  rw [← Routing.viaProxy_route hgoes]
  obtain hnew | hapart := hfits
  · exact hserves.fresh hnew
  · obtain ⟨_, attempt, -, hattempt, hroute, -⟩ := hserves.made
    obtain ⟨ask, hask, hway⟩ := hs.started attempt (List.mem_of_getElem? hattempt)
    have hcaller : (c.options, c.request) ∈ t.asked :=
      List.mem_map_of_mem (List.mem_of_getElem? hc)
    have hdestination : attempt.route.destination = route.destination := by
      rw [hroute]
      exact hserves.destination
    have hsame := hapart.viaProxy_eq hask hcaller hway hgoes hdestination
    rw [hroute] at hsame
    exact hsame

/-- **Whose links go through the proxy.**  After any run, what a caller holds goes through the proxy
just when its request is forwarded, and the request is then written in the form that goes with it:
if the link is new, or if nobody in the run asks directly for what is where the proxy is. -/
theorem run_viaProxy (routing : Routing) (maxIdlePerHost idleTimeout : Nat) (network : Network)
    (actions : List Action) {i : Nat} {c : Caller} {h : Handle} {exchange : Option Exchange} :
    let t := (start routing maxIdlePerHost idleTimeout network).run actions
    t.callers[i]? = some c → c.stage = .holding h exchange →
    (h.reused = false ∨ routing.Apart t.asked) →
    h.link.viaProxy = (c.options.useProxy && routing.proxy.isSome) ∧
      c.request.target h.link.viaProxy =
        if c.options.useProxy && routing.proxy.isSome then c.request.absoluteForm
        else c.request.originForm := by
  intro t hc hstage hfits
  have hs : t.Sound :=
    sound_run (sound_start routing maxIdlePerHost idleTimeout network) actions
  have hrouting : t.broker.routing = routing := (later_run _ actions).routing
  rw [← hrouting] at hfits ⊢
  have hvia := hs.viaProxy_eq hc hstage hfits
  exact ⟨hvia, by rw [hvia]; rfl⟩

/-! ### A proxy that is also asked for itself -/

/-- A caller gets the idle link it has taken out, whose far end keeps silent. -/
theorem callers_run_probe {actions : List Action} (hc : (t.run actions).callers[i]? = some c)
    {route : Route} {h : Handle} (hstage : c.stage = .probing route h)
    (hbuffer : h.link.buffer = [])
    (hsilent : ((t.run actions).broker.network.stream h.link.id).reads.head? = some .hang) :
    (t.run (actions ++ [.caller i .probe])).callers =
      ((t.run actions).turn i c (.holding h none)).callers := by
  obtain ⟨rest, hsilent⟩ := List.head?_eq_some_iff.1 hsilent
  rw [run_append, run_cons, run_nil, step, hc]
  show ((t.run actions).act i c .probe).callers = _
  rw [act.eq_def, hstage]
  show ((t.run actions).probe i c route h).callers = _
  rw [probe, Network.probe, Link.probe_silent _ hbuffer hsilent]
  rfl

/-- A proxy. -/
def someProxy : Url := { scheme := "http", host := some (.name "proxy.test"), port := some 3128 }

/-- A page elsewhere. -/
def somePage : Url :=
  { scheme := "http", host := some (.name "example.com"), path := .segments [""] }

/-- A client whose requests are forwarded by the proxy, if there is one. -/
def forwarded : ClientOptions := { useProxy := true }

/-- The beginning where the proxy takes one connection and then keeps silent. -/
def beforeVisits : Traffic :=
  start { proxy := some someProxy } 8 90000 { dials := [.opens { reads := [.hang] }] }

/-- Someone gets a link for a page and lets go of it; then someone else takes it out for a page. -/
def twoVisits (one other : ClientOptions × Url) : List Action :=
  visit 0 one.1 one.2 ++
    [.caller 0 .drop, .ask other.1 { url := other.2 }, .caller 1 .take]

/-- What the second visitor finds: a link that was made with or without the proxy. -/
def foundLink (viaProxy : Bool) : Handle where
  link := { id := 0, destination := ⟨"http", "proxy.test", 3128⟩, address := .loopback 3128,
            viaProxy, idleSince := 1 }
  generation := 0
  reused := true

/-- The second visitor, before it looks at the link. -/
def secondVisitor (viaProxy : Bool) : Caller where
  options := forwarded
  request := { url := somePage }
  stage := .probing ⟨⟨"http", "proxy.test", 3128⟩, true⟩ (foundLink viaProxy)

/-- The second visitor holds a link that goes through the proxy, as the first one did. -/
theorem run_viaProxy_forwarded :
    ∃ c, (beforeVisits.run (twoVisits (forwarded, somePage) (forwarded, somePage)
        ++ [.caller 1 .probe])).callers[1]? = some c ∧
      c.stage = .holding (foundLink true) none ∧
      (foundLink true).link.viaProxy = (c.options.useProxy && true) ∧
      c.request.target (foundLink true).link.viaProxy = "http://example.com/" := by
  have hfound : (beforeVisits.run
      (twoVisits (forwarded, somePage) (forwarded, somePage))).callers[1]? =
        some (secondVisitor true) := by decide
  have hcallers := callers_run_probe hfound rfl rfl (by decide)
  -- From here on the actions are of no account, only who has come of them.
  generalize twoVisits (forwarded, somePage) (forwarded, somePage) ++ [.caller 1 .probe] = actions
    at hcallers ⊢
  have hc : (beforeVisits.run actions).callers[1]? =
      some { secondVisitor true with stage := .holding (foundLink true) none } := by
    rw [hcallers]
    decide
  have hasked : ∀ ask ∈ (beforeVisits.run actions).asked, ask.1.useProxy = true := by
    rw [asked, hcallers]
    decide
  have hapart : Routing.Apart { proxy := some someProxy } (beforeVisits.run actions).asked := by
    intro _ _ _ _ ask hask hdirect
    rw [Routing.forwards, hasked ask hask] at hdirect
    cases hdirect
  have hvia := run_viaProxy _ _ _ _ actions hc rfl (.inr hapart)
  exact ⟨_, hc, rfl, hvia.1, hvia.2.trans (by decide)⟩

/-- **A direct request to the proxy's own address leaves a link that is not meant for
forwarding.**  The next request that is to be forwarded gets it, and is written in origin form. -/
theorem run_viaProxy_fails :
    ∃ c h, (beforeVisits.run (twoVisits ({}, someProxy) (forwarded, somePage)
        ++ [.caller 1 .probe])).callers[1]? = some c ∧
      c.stage = .holding h none ∧
      (c.options.useProxy && beforeVisits.broker.routing.proxy.isSome) = true ∧
      h.link.viaProxy = false ∧
      c.request.target h.link.viaProxy = "/" ∧ c.request.absoluteForm = "http://example.com/" := by
  have hfound : (beforeVisits.run (twoVisits ({}, someProxy) (forwarded, somePage))).callers[1]? =
      some (secondVisitor false) := by decide
  have hcallers := callers_run_probe hfound rfl rfl (by decide)
  have hc : (beforeVisits.run (twoVisits ({}, someProxy) (forwarded, somePage)
      ++ [.caller 1 .probe])).callers[1]? =
        some { secondVisitor false with stage := .holding (foundLink false) none } := by
    rw [hcallers]
    decide
  exact ⟨_, foundLink false, hc, rfl, rfl, rfl, by decide, by decide⟩

end Traffic

end HttpExchange
