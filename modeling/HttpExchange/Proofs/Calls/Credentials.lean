import Mathlib.Data.List.Induction
import HttpExchange.Proofs.Calls.Basic
import HttpExchange.Proofs.Header

/-!
# What a caller means for one host alone

A call may lead from URL to URL.  The fields that its caller means for one host alone,
`Authorization` and `Host`, go along as long as every URL has the host of the one before.  At the
first that has another they are taken off, and they do not come back with the host: a request that
has gone a `Trail` of URLs has them as they were given if all of these have the host of the first,
and has none of them otherwise.

* `Chain.Trail.credentials` — what a request has at the end of a trail;
* `Calls.Traced`, `Calls.traced_run` — every request that is sent stands at the end of a trail,
  whatever else goes on;
* `Calls.run_credentials` — what is sent to whom, in any run;
* `Calls.run_credentials_fails` — another port is not another host.
-/

namespace HttpExchange

/-! ### What is sent of them -/

namespace Outgoing

/-- The fields that a caller means for one host alone. -/
def personal : List String := ["Authorization", "Host"]

theorem not_isManaged_of_authorization {h : Header} (hnamed : h.named "Authorization" = true) :
    isManaged h = false := by
  rw [isManaged, List.any_eq_false]
  have hne : ∀ name ∈ managed, Ascii.eqIgnoreCase "Authorization" name = false := by decide
  intro name hname
  rw [Headers.named_eq_false (hne name hname) hnamed]
  exact Bool.false_ne_true

theorem isManaged_of_host {h : Header} (hnamed : h.named "Host" = true) : isManaged h = true :=
  List.any_eq_true.2 ⟨"Host", by decide, hnamed⟩

/-- Of what is sent under a name that is not that of the length, the caller's fields are what a
connection does not manage. -/
theorem every_sentHeaders (r : Outgoing) (host : String) {name : String}
    (hne : Ascii.eqIgnoreCase "Content-Length" name = false) :
    (r.sentHeaders host).every name =
      (if Ascii.eqIgnoreCase "Host" name then [host] else []) ++
        Headers.every (r.headers.filter (!isManaged ·)) name := by
  have hlength : Headers.every (if r.declaresLength
      then [⟨"Content-Length", Numeral.decimal r.body.length⟩] else []) name = [] := by
    split
    · rw [Headers.every_cons, Header.named, hne]
      rfl
    · rfl
  rw [sentHeaders, Headers.every_append, hlength, List.append_nil, Headers.every_cons]
  rfl

/-- The caller's `Authorization` is sent as it is. -/
theorem every_sentHeaders_authorization (r : Outgoing) (host : String) :
    (r.sentHeaders host).every "Authorization" = r.headers.every "Authorization" := by
  have hown : Headers.every (r.headers.filter (!isManaged ·)) "Authorization" =
      r.headers.every "Authorization" :=
    Headers.every_filter fun field hnamed => by rw [not_isManaged_of_authorization hnamed]; rfl
  rw [every_sentHeaders r host (by decide), hown, if_neg (by decide), List.nil_append]

/-- One `Host` is sent. -/
theorem every_sentHeaders_host (r : Outgoing) (host : String) :
    (r.sentHeaders host).every "Host" = [host] := by
  have hown : Headers.every (r.headers.filter (!isManaged ·)) "Host" = [] := by
    rw [Headers.every, List.filter_filter, List.map_eq_nil_iff, List.filter_eq_nil_iff]
    intro field _ hboth
    obtain ⟨hnamed, hfree⟩ := Bool.and_eq_true_iff.1 hboth
    rw [isManaged_of_host hnamed] at hfree
    cases hfree
  rw [every_sentHeaders r host (by decide), hown, if_pos (by decide), List.append_nil]

/-- Without one of the caller it is the authority of the URL. -/
theorem hostField_of_every {r : Outgoing} (h : r.headers.every "Host" = []) :
    r.hostField = r.authority := by
  rw [hostField, Headers.first?_eq_head?_every, h]
  rfl

end Outgoing

/-! ### Along the redirects of a call -/

namespace Chain

variable {join : Url.Joining} {o : ClientOptions} {limit : Nat} {first r : Outgoing}
  {c d : Chain} {reply : Reply} {urls : List Url}

/-- How a call may have gone: the URLs of its requests so far, and where it stands. -/
inductive Trail (join : Url.Joining) (o : ClientOptions) (limit : Nat) (first : Outgoing) :
    List Url → Chain → Prop
  | start : Trail join o limit first [first.url] { request := first }
  | next {urls : List Url} {c d : Chain} {reply : Reply} (before : Trail join o limit first urls c)
      (follows : c.onReply join o limit reply = .follow d) :
      Trail join o limit first (urls ++ [d.request.url]) d

theorem onReply_of_redirect (location : String) (url : Url) (hfollows : o.followRedirects = true)
    (hredirect : reply.isRedirect = true) (hlocation : reply.location? = some location)
    (hlimit : c.redirects < limit) (hjoin : join c.request.url location = .ok url) :
    c.onReply join o limit reply =
      .follow ⟨redirected c.request reply.status url, c.redirects + 1⟩ := by
  rw [onReply, hfollows, hredirect, hlocation]
  simp only [Bool.and_self, if_true, if_neg (Nat.not_le_of_lt hlimit), hjoin]

theorem request_of_follow (h : c.onReply join o limit reply = .follow d) :
    d.request = redirected c.request reply.status d.request.url := by
  simp only [onReply] at h
  repeat' split at h
  all_goals first | (cases h; rfl) | cases h

/-- Whether a redirect turns a request into a `GET` or not, its personal fields stay. -/
theorem every_asGet {name : String} (h : name ∈ Outgoing.personal) (r : Outgoing) :
    (asGet r).headers.every name = r.headers.every name := by
  have hne : ∀ name ∈ Outgoing.personal, Ascii.eqIgnoreCase name "Content-Type" = false := by
    decide
  exact Headers.every_without_of_ne _ (hne name h)

theorem every_withoutCredentials {name : String} (h : name ∈ Outgoing.personal) (r : Outgoing) :
    (withoutCredentials r).headers.every name = [] := by
  rcases List.mem_pair.1 h with rfl | rfl
  · exact Headers.every_without_eq_nil (Headers.every_without_self _ _) _
  · exact Headers.every_without_self _ _

/-- **What a redirect does to the personal fields of a request**: they stay with the host. -/
theorem every_redirected {name : String} (h : name ∈ Outgoing.personal) (r : Outgoing)
    (status : Nat) (url : Url) :
    (redirected r status url).headers.every name =
      if url.hostText? = r.url.hostText? then r.headers.every name else [] := by
  rw [redirected]
  dsimp only
  split
  · split
    · exact every_asGet h r
    · rfl
  · exact every_withoutCredentials h _

/-- The last URL of a trail is that of the next request. -/
theorem Trail.url_mem (h : Trail join o limit first urls c) : c.request.url ∈ urls := by
  cases h with
  | start => exact List.mem_singleton_self _
  | next => exact List.mem_append_right _ (List.mem_singleton_self _)

/-- **What a request has at the end of a trail**: the personal fields of the first request, if all
URLs have the host of the first, and else none of them. -/
theorem Trail.credentials (h : Trail join o limit first urls c) {name : String}
    (hname : name ∈ Outgoing.personal) :
    ((∀ url ∈ urls, url.hostText? = first.url.hostText?) →
      c.request.headers.every name = first.headers.every name) ∧
    ((∃ url ∈ urls, url.hostText? ≠ first.url.hostText?) →
      c.request.headers.every name = []) := by
  induction h with
  | start =>
    refine ⟨fun _ => rfl, ?_⟩
    rintro ⟨url, hurl, hne⟩
    rw [List.mem_singleton.1 hurl] at hne
    exact absurd rfl hne
  | @next urls c d reply before follows ih =>
    obtain ⟨hstayed, hleft⟩ := ih
    have hnext : d.request.headers.every name =
        if d.request.url.hostText? = c.request.url.hostText? then c.request.headers.every name
        else [] := by
      rw [request_of_follow follows]
      exact every_redirected hname _ _ _
    rw [hnext]
    refine ⟨fun hall => ?_, ?_⟩
    · have hold : ∀ url ∈ urls, url.hostText? = first.url.hostText? :=
        fun url hurl => hall url (List.mem_append_left _ hurl)
      have hhost := (hall _ (List.mem_append_right _ (List.mem_singleton_self _))).trans
        (hold _ before.url_mem).symm
      rw [if_pos hhost]
      exact hstayed hold
    · rintro ⟨url, hurl, hne⟩
      by_cases hold : ∃ url ∈ urls, url.hostText? ≠ first.url.hostText?
      · rw [hleft hold]
        exact ite_self _
      · -- The host is another here for the first time.
        have hsame : ∀ url ∈ urls, url.hostText? = first.url.hostText? :=
          fun url hurl => not_not.1 fun hother => hold ⟨url, hurl, hother⟩
        rcases List.mem_append.1 hurl with hbefore | hlast
        · exact absurd (hsame url hbefore) hne
        · rw [List.mem_singleton.1 hlast, ← hsame _ before.url_mem] at hne
          rw [if_neg hne]

end Chain

/-! ### In any run of calls -/

namespace Calls

variable {join : Url.Joining} {u v : Calls} {steps : List CallStep} {i : Nat} {c : Caller}

/-- What stands behind the requests of a run: every hop is at the end of a trail that a submitted
request has gone, and what was begun on a link is the request of a hop. -/
structure Traced (join : Url.Joining) (steps : List CallStep) (u : Calls) : Prop where
  reads : u.join = join
  asked : ∀ i ask, u.traffic.asked[i]? = some ask → ∃ first urls,
    .submit ask.1 (u.hops i).limit first ∈ steps ∧
      Chain.Trail join ask.1 (u.hops i).limit first urls ⟨ask.2, (u.hops i).redirects⟩
  began : ∀ id request, .began request ∈ u.record id → ∃ ask ∈ u.traffic.asked, ask.2 = request

namespace Traced

theorem mono (h : u.Traced join steps) {more : List CallStep} (hmore : steps ⊆ more) :
    u.Traced join more := by
  refine ⟨h.reads, fun i ask hask => ?_, h.began⟩
  obtain ⟨first, urls, hsubmit, htrail⟩ := h.asked i ask hask
  exact ⟨first, urls, hmore hsubmit, htrail⟩

/-- Where nobody comes, the hops stay at their ends. -/
theorem frame (h : u.Traced join steps) (hjoin : v.join = u.join)
    (hasked : v.traffic.asked = u.traffic.asked)
    (hhops : ∀ i, (v.hops i).limit = (u.hops i).limit ∧ (v.hops i).redirects = (u.hops i).redirects)
    (hbegan : ∀ id request, .began request ∈ v.record id →
      .began request ∈ u.record id ∨ ∃ ask ∈ u.traffic.asked, ask.2 = request) :
    v.Traced join steps := by
  refine ⟨hjoin.trans h.reads, fun i ask hask => ?_, fun id request hrequest => ?_⟩
  · rw [hasked] at hask
    obtain ⟨hlimit, hredirects⟩ := hhops i
    rw [hlimit, hredirects]
    exact h.asked i ask hask
  · rw [hasked]
    exact (hbegan id request hrequest).elim (h.began id request) fun hask => hask

theorem setState (h : u.Traced join steps) (i : Nat) (state : HopState) :
    (u.setState i state).Traced join steps := by
  refine h.frame rfl rfl (fun j => ?_) fun id request hrequest => .inl hrequest
  have hhops : (u.setState i state).hops =
      Function.update u.hops i { u.hops i with state } := rfl
  rw [hhops]
  rcases eq_or_ne j i with rfl | hne
  · rw [Function.update_self]
    exact ⟨rfl, rfl⟩
  · rw [Function.update_of_ne hne]
    exact ⟨rfl, rfl⟩

theorem deed (h : u.Traced join steps) (i : Nat) (d : Deed) : (u.deed i d).Traced join steps :=
  h.frame rfl (u.traffic.asked_stroke rfl) (fun _ => ⟨rfl, rfl⟩) fun _ _ hrequest => .inl hrequest

/-- A stroke of an exchange tells of no other request than that of its hop. -/
theorem touch (h : u.Traced join steps) (hc : u.traffic.callers[i]? = some c) (held : Handle)
    {s : Stroke} (hnumber : s.number? = some i) {m : Exchange.Motion}
    (hpassed : ∀ request, .began request ∈ m.passed → request = c.request) :
    (u.touch i held s m).Traced join steps := by
  refine (h.setState i _).frame (v := u.touch i held s m) rfl
    (u.traffic.asked_stroke hnumber) (fun _ => ⟨rfl, rfl⟩) fun id request hrequest => ?_
  have hrecord : (u.touch i held s m).record =
      Function.update u.record held.link.id (u.record held.link.id ++ m.passed) := rfl
  rw [hrecord] at hrequest
  rcases eq_or_ne id held.link.id with rfl | hne
  · rw [Function.update_self] at hrequest
    rcases List.mem_append.1 hrequest with hold | hnew
    · exact .inl hold
    · exact .inr ⟨(c.options, c.request), List.mem_map_of_mem (List.mem_of_getElem? hc),
        (hpassed request hnew).symm⟩
  · rw [Function.update_of_ne hne] at hrequest
    exact .inl hrequest

/-- **Somebody comes**, at the end of a trail. -/
theorem enter (h : u.Traced join steps) {options : ClientOptions} {hop : Hop} {request : Outgoing}
    (hnew : ∃ first urls, .submit options hop.limit first ∈ steps ∧
      Chain.Trail join options hop.limit first urls ⟨request, hop.redirects⟩) :
    (u.enter options hop request).Traced join steps := by
  have hasked : (u.enter options hop request).traffic.asked =
      u.traffic.asked ++ [(options, request)] := u.traffic.asked_ask options request
  refine ⟨h.reads, fun i ask hask => ?_, fun id r hr => ?_⟩
  · obtain ⟨hold, hsame⟩ | ⟨rfl, hsame⟩ := asked_enter hask
    · rw [hsame]
      exact h.asked i ask hold
    · rw [hsame]
      exact hnew
  · obtain ⟨ask, hask, heq⟩ := h.began id r hr
    rw [hasked]
    exact ⟨ask, List.mem_append_left _ hask, heq⟩

theorem follow (h : u.Traced join steps) (hc : u.traffic.callers[i]? = some c) (reply : Reply) :
    (u.follow i c reply).Traced join steps := by
  rw [Calls.follow]
  split
  · exact h.setState i _
  · next next hnext =>
    obtain ⟨first, urls, hsubmit, htrail⟩ := h.asked i _ (asked_of_caller hc)
    rw [h.reads] at hnext
    exact (h.setState i _).enter ⟨first, _, hsubmit, htrail.next hnext⟩

theorem goOn (h : u.Traced join steps) (hc : u.traffic.callers[i]? = some c)
    (answer : Except IoError Address) : (u.goOn i c answer).Traced join steps := by
  rw [Calls.goOn]
  split
  case h_7 => exact h.setState i _
  case h_8 held _ _ =>
    refine h.touch hc held rfl fun request hrequest => ?_
    rw [Broker.begun, Link.passed_begun] at hrequest
    cases List.mem_singleton.1 hrequest
    rfl
  case h_9 held x _ _ =>
    exact h.touch hc held rfl fun request hrequest =>
      absurd hrequest (Exchange.not_began_of_move _ _ _ _ _)
  case h_10 => exact (h.setState i _).deed i _
  case h_11 => exact (h.setState i _).deed i _
  case h_12 => exact h.follow hc _
  case h_13 => exact h
  all_goals exact h.deed i _

theorem giveUp (h : u.Traced join steps) (error : CallError) :
    (u.giveUp i c error).Traced join steps := by
  rw [Calls.giveUp]
  split
  · exact (h.setState i _).deed i _
  · exact (h.setState i _).deed i _
  · exact ((h.setState i _).deed i _).deed i _
  · exact h

/-- **Every step preserves it.** -/
theorem step (h : u.Traced join steps) (s : CallStep) : (u.step s).Traced join (steps ++ [s]) := by
  have hmono := h.mono (List.subset_append_left steps [s])
  cases s with
  | submit options limit request =>
    exact hmono.enter ⟨request, _, List.mem_append_right _ (List.mem_singleton_self _), .start⟩
  | goOn i answer =>
    rw [Calls.step]
    split
    · next hc => exact hmono.goOn hc answer
    · exact hmono
  | giveUp i error =>
    rw [Calls.step]
    split
    · exact hmono.giveUp error
    · exact hmono
  | forget => exact hmono.frame rfl rfl (fun _ => ⟨rfl, rfl⟩) fun _ _ hrequest => .inl hrequest
  | reset => exact hmono.frame rfl rfl (fun _ => ⟨rfl, rfl⟩) fun _ _ hrequest => .inl hrequest
  | world network =>
    have hasked : (u.traffic.step (.world network)).asked = u.traffic.asked := by
      rw [Traffic.step]
      split <;> rfl
    exact hmono.frame rfl hasked (fun _ => ⟨rfl, rfl⟩) fun _ _ hrequest => .inl hrequest

end Traced

/-- **Every run preserves it.** -/
theorem traced_run (join : Url.Joining) (routing : Routing) (maxIdlePerHost idleTimeout : Nat)
    (network : Network) (steps : List CallStep) :
    ((start join routing maxIdlePerHost idleTimeout network).run steps).Traced join steps := by
  induction steps using List.reverseRecOn with
  | nil =>
    refine ⟨rfl, fun i ask hask => ?_, fun id request hrequest => ?_⟩
    · cases hask
    · cases hrequest
  | append_singleton steps s ih =>
    rw [run_concat]
    exact ih.step s

/-- **Who is sent what a caller means for one host alone.**  In any run of calls, however locations
are read, every request that is begun on a link has gone a trail of redirects from a submitted one,
and for each such trail:

* if some URL of the trail has another host than the first, be it the last one or one before, the
  request is sent without `Authorization`, and its `Host` is the authority of its own URL;
* if all of them have the host of the first, whatever their schemes and ports, the caller's
  `Authorization` is sent as it was given, and so is its `Host`. -/
theorem run_credentials (join : Url.Joining) (routing : Routing) (maxIdlePerHost idleTimeout : Nat)
    (network : Network) (steps : List CallStep) :
    (∀ id request,
      .began request ∈
        ((start join routing maxIdlePerHost idleTimeout network).run steps).record id →
      ∃ o limit first urls redirects, .submit o limit first ∈ steps ∧
        Chain.Trail join o limit first urls ⟨request, redirects⟩) ∧
    ∀ o limit first urls c, Chain.Trail join o limit first urls c →
      c.request.url ∈ urls ∧
      ((∃ url ∈ urls, url.hostText? ≠ first.url.hostText?) →
        c.request.hostField = c.request.authority ∧
        ∀ host, (c.request.sentHeaders host).every "Host" = [host] ∧
          (c.request.sentHeaders host).every "Authorization" = []) ∧
      ((∀ url ∈ urls, url.hostText? = first.url.hostText?) →
        c.request.headers.every "Host" = first.headers.every "Host" ∧
        ∀ host, (c.request.sentHeaders host).every "Authorization" =
          first.headers.every "Authorization") := by
  have htraced := traced_run join routing maxIdlePerHost idleTimeout network steps
  refine ⟨fun id request hrequest => ?_, fun o limit first urls c htrail => ?_⟩
  · obtain ⟨ask, hask, rfl⟩ := htraced.began id request hrequest
    obtain ⟨i, hi⟩ := List.getElem?_of_mem hask
    obtain ⟨first, urls, hsubmit, htrail⟩ := htraced.asked i ask hi
    exact ⟨_, _, first, urls, _, hsubmit, htrail⟩
  · have hauthorization := htrail.credentials (by decide : "Authorization" ∈ Outgoing.personal)
    have hhost := htrail.credentials (by decide : "Host" ∈ Outgoing.personal)
    refine ⟨htrail.url_mem, fun hleft => ⟨?_, fun host => ⟨?_, ?_⟩⟩,
      fun hstayed => ⟨hhost.1 hstayed, fun host => ?_⟩⟩
    · exact Outgoing.hostField_of_every (hhost.2 hleft)
    · exact c.request.every_sentHeaders_host host
    · rw [Outgoing.every_sentHeaders_authorization]
      exact hauthorization.2 hleft
    · rw [Outgoing.every_sentHeaders_authorization]
      exact hauthorization.1 hstayed

/-! ### There and back, and to another port -/

/-- A client that follows redirects. -/
def following : ClientOptions := { followRedirects := true }

/-- A page at some port of a host. -/
def pageAt (host : String) (port : Option Nat) : Url :=
  { scheme := "http", host := some (.name host), port, path := .segments [""] }

/-- A request with what its caller means for one host alone. -/
def secretRequest : Outgoing :=
  { url := pageAt "example.com" none
    headers := [⟨"Authorization", "Basic secret"⟩, ⟨"Host", "inner.example"⟩] }

/-- A reply that leads elsewhere. -/
def movedTo (location : String) : Reply :=
  { status := 302, reason := "Found", version := "HTTP/1.1", headers := [⟨"Location", location⟩],
    body := [] }

/-- A call that is led to another host and back comes without them. -/
theorem run_credentials_back :
    ∃ c, Chain.Trail Url.join following 5 secretRequest
        [pageAt "example.com" none, pageAt "elsewhere.test" none, pageAt "example.com" none] c ∧
      c.request.url = secretRequest.url ∧
      (c.request.sentHeaders "example.com").every "Authorization" = [] := by
  have hthere : Chain.onReply Url.join following 5 ⟨secretRequest, 0⟩
      (movedTo "http://elsewhere.test/") =
      .follow ⟨Chain.redirected secretRequest 302 (pageAt "elsewhere.test" none), 1⟩ :=
    Chain.onReply_of_redirect "http://elsewhere.test/" (pageAt "elsewhere.test" none) rfl
      (by decide) (by decide) (by decide) (by decide)
  have hback := Chain.onReply_of_redirect
    (c := ⟨Chain.redirected secretRequest 302 (pageAt "elsewhere.test" none), 1⟩)
    (o := following) "http://example.com/" (pageAt "example.com" none) rfl
      (by decide : (movedTo "http://example.com/").isRedirect = true) (by decide)
      (by decide : 1 < 5)
      (by decide : (pageAt "elsewhere.test" none).join "http://example.com/" =
        .ok (pageAt "example.com" none))
  have htrail := (Chain.Trail.start.next hthere).next hback
  obtain ⟨-, hcredentials⟩ := run_credentials Url.join {} 8 90000 {} []
  have hleft := (hcredentials following 5 secretRequest _ _ htrail).2.1
  refine ⟨_, htrail, rfl, ((hleft ⟨pageAt "elsewhere.test" none, ?_, ?_⟩).2 _).2⟩
  · exact List.mem_append_left _ (List.mem_append_right _ (List.mem_singleton_self _))
  · decide

/-- **Another port is not another host**: what the caller means for one host alone is sent there. -/
theorem run_credentials_fails :
    ∃ c, Chain.Trail Url.join following 5 secretRequest
        [pageAt "example.com" none, pageAt "example.com" (some 8080)] c ∧
      c.request.url.effectivePort? = some 8080 ∧ secretRequest.url.effectivePort? = some 80 ∧
      c.request.hostField = .ok "inner.example" ∧
      (c.request.sentHeaders "inner.example").every "Authorization" = ["Basic secret"] := by
  have hmoves : Chain.onReply Url.join following 5 ⟨secretRequest, 0⟩
      (movedTo "http://example.com:8080/") =
      .follow ⟨Chain.redirected secretRequest 302 (pageAt "example.com" (some 8080)), 1⟩ :=
    Chain.onReply_of_redirect "http://example.com:8080/" (pageAt "example.com" (some 8080)) rfl
      (by decide) (by decide) (by decide) (by decide)
  exact ⟨_, Chain.Trail.start.next hmoves, by decide, by decide, by decide, by decide⟩

end Calls

end HttpExchange
