import HttpExchange.Proofs.Calls.Clean
import HttpExchange.Proofs.Calls.Credentials
import HttpExchange.Proofs.Calls.Threads
import HttpExchange.Proofs.Traffic.Failures

/-!
# Following redirects, in any run of calls

Here `Chain.perform` is put to use: it tells how a call goes by what its exchanges come to, and a
run of `Calls` makes of a call just that, while other calls go on, are given up or wait.

* `Sober.step`, `sober_run` — no hop comes to the failure for too many redirects by itself;
* `run_redirects` — how often a call is redirected, what it sends and how it ends.
-/

namespace HttpExchange.Calls

variable {v w : Calls} {i : Nat}

/-! ### What hops fail for -/

/-- Nobody was refused a link for too many redirects, and no exchange has failed for them. -/
structure Sober (v : Calls) : Prop where
  refused : ∀ (i : Nat) (c : Caller) (error : CallError), v.traffic.callers[i]? = some c →
    c.stage.refusal? = some error → error.limit? = none
  answered : ∀ i result, (v.hops i).state = .answered result → Unlimited result

namespace Sober

/-- What a stroke does to the traffic, and new states that are not of exchanges, keep it. -/
theorem frame (h : v.Sober) (s : Stroke) (htraffic : w.traffic = v.traffic.stroke s)
    (hstate : ∀ j result, (w.hops j).state = .answered result → Unlimited result) : w.Sober := by
  refine ⟨fun j c error hc hrefused => ?_, hstate⟩
  rw [htraffic] at hc
  obtain hold | hnone := Traffic.refused_stroke s hc hrefused
  · exact h.refused j c error hold hrefused
  · exact hnone

theorem deed (h : v.Sober) (i : Nat) (d : Deed) : (v.deed i d).Sober :=
  h.frame (.action (.caller i d)) rfl h.answered

theorem setState (h : v.Sober) (i : Nat) {state : HopState}
    (hnew : ∀ result, state = .answered result → Unlimited result) :
    (v.setState i state).Sober := by
  refine ⟨h.refused, fun j result hj => ?_⟩
  have hhops : (v.setState i state).hops = Function.update v.hops i { v.hops i with state } := rfl
  rw [hhops] at hj
  rcases eq_or_ne j i with rfl | hne
  · rw [Function.update_self] at hj
    exact hnew result hj
  · rw [Function.update_of_ne hne] at hj
    exact h.answered j result hj

theorem touch (h : v.Sober) (held : Handle) (s : Stroke) {m : Exchange.Motion}
    (hgoing : (v.hops i).state = .going) (hm : m.progress.outcome.Unlimited) :
    (v.touch i held s m).Sober := by
  have hset : (v.setState i ((v.hops i).state.after m.progress.outcome)).Sober := by
    refine h.setState i fun result hresult => ?_
    rw [hgoing] at hresult
    generalize m.progress.outcome = outcome at hm hresult
    cases hm with
    | finished hlimit =>
      cases hresult
      exact hlimit
    | waiting x wake => cases hresult
  exact hset.frame s rfl hset.answered

theorem enter (h : v.Sober) (options : ClientOptions) {hop : Hop} (request : Outgoing)
    (hgoing : hop.state = .going) : (v.enter options hop request).Sober := by
  refine h.frame (.action (.ask options request)) rfl fun j result hj => ?_
  have hhops : (v.enter options hop request).hops =
      Function.update v.hops v.traffic.callers.length hop := rfl
  rw [hhops] at hj
  rcases eq_or_ne j v.traffic.callers.length with rfl | hne
  · rw [Function.update_self, hgoing] at hj
    cases hj
  · rw [Function.update_of_ne hne] at hj
    exact h.answered j result hj

theorem follow (h : v.Sober) (i : Nat) (c : Caller) (reply : Reply) :
    (v.follow i c reply).Sober := by
  rw [Calls.follow]
  split
  · exact h.setState i fun _ heq => HopState.noConfusion heq
  · have hset : (v.setState i .followed).Sober :=
      h.setState i fun _ heq => HopState.noConfusion heq
    exact hset.enter _ _ rfl

theorem goOn (h : v.Sober) (i : Nat) (c : Caller) (answer : Except IoError Address) :
    (v.goOn i c answer).Sober := by
  have hends (result : Except CallError Reply) : (v.setState i (.over result)).Sober :=
    h.setState i fun _ heq => HopState.noConfusion heq
  rw [Calls.goOn]
  split
  case h_7 => exact hends _
  case h_8 held hgoing _ => exact h.touch held _ hgoing (Exchange.unlimited_begun _ _ _ _)
  case h_9 held x hgoing _ => exact h.touch held _ hgoing (Exchange.unlimited_move _ _ _ _)
  case h_10 => exact (hends _).deed i _
  case h_11 reply held _ _ =>
    have hreplied : (v.setState i (.replied reply)).Sober :=
      h.setState i fun _ heq => HopState.noConfusion heq
    exact hreplied.deed i _
  case h_12 => exact h.follow i c _
  case h_13 => exact h
  all_goals exact h.deed i _

theorem giveUp (h : v.Sober) (i : Nat) (c : Caller) (error : CallError) :
    (v.giveUp i c error).Sober := by
  have hends : (v.setState i (.over (.error error))).Sober :=
    h.setState i fun _ heq => HopState.noConfusion heq
  rw [Calls.giveUp]
  split
  · exact hends.deed i _
  · exact hends.deed i _
  · exact (hends.deed i _).deed i _
  · exact h

/-- **Every step preserves it.** -/
theorem step (h : v.Sober) (s : CallStep) : (v.step s).Sober := by
  cases s with
  | submit options limit request => exact h.enter options request rfl
  | goOn i answer =>
    rw [Calls.step]
    split
    · next c _ => exact h.goOn i c answer
    · exact h
  | giveUp i error =>
    rw [Calls.step]
    split
    · next c _ => exact h.giveUp i c error
    · exact h
  | forget => exact h.frame (.action .forget) rfl h.answered
  | reset => exact h.frame (.action .reset) rfl h.answered
  | world network => exact h.frame (.action (.world network)) rfl h.answered

end Sober

/-- **Every run preserves it.** -/
theorem sober_run (join : Url.Joining) (routing : Routing) (maxIdlePerHost idleTimeout : Nat)
    (network : Network) (steps : List CallStep) :
    ((start join routing maxIdlePerHost idleTimeout network).run steps).Sober := by
  induction steps using List.reverseRecOn with
  | nil =>
    refine ⟨fun i c error hc _ => ?_, fun i result hresult => ?_⟩
    · cases hc
    · cases hresult
  | append_singleton steps s ih =>
    rw [run_concat]
    exact ih.step s

/-- A hop comes to the failure for too many redirects only by being given up with it. -/
theorem Came.limit?_eq (join : Url.Joining) (routing : Routing) (maxIdlePerHost idleTimeout : Nat)
    (network : Network) (steps : List CallStep) {error : CallError}
    (h : Came (start join routing maxIdlePerHost idleTimeout network) steps i (.error error)) :
    error.limit? = none ∨ .giveUp i error ∈ steps := by
  have hsober := sober_run join routing maxIdlePerHost idleTimeout network
  cases h with
  | @answered earlier _ _ state => exact .inl ((hsober earlier).answered i _ state error rfl)
  | @refused earlier c _ _ caller stage =>
    exact .inl ((hsober earlier).refused i c error caller (by rw [stage]; rfl))
  | givenUp given => exact .inr given

/-- **The law of redirects.**  However locations are read, and whatever the exchanges of a call come
to, one after the other:

* its first request is the one it was given; it makes at most one more than it may follow redirects,
  and after as many exchanges it has its result;
* if it does not follow redirects, the first exchange is its result;
* if it does, its requests go where the redirects lead.  It succeeds with the first reply that sends
  it nowhere, and fails with the first failure it meets: that of an exchange, a location that is no
  URL, or, once the limit is reached, another redirect with a location.  So it fails for too many
  redirects just if each of `limit + 1` exchanges brings one, and the first `limit` locations
  resolve;
* each of its requests has the method, the body and the types of the first, until the first redirect
  that turns it into a `GET`; from there on it is one, without body and type.

In any run, that is how calls go.  Every hop is the last so far of the requests that a submitted
call makes after the replies of the hops that led to it; if it is over, its result is that of the
call after what the hop has come to.  And no hop comes to the failure for too many redirects, unless
it is given up with it. -/
theorem run_redirects (join : Url.Joining) (routing : Routing) (maxIdlePerHost idleTimeout : Nat)
    (network : Network) (steps : List CallStep) :
    (∀ (o : ClientOptions) (limit : Nat) (first : Outgoing)
        (outcomes : List (Except CallError Reply)),
      let course := Chain.perform join o limit { request := first } outcomes
      (course.requests.head? = some first ∧ course.requests.length ≤ limit + 1 ∧
        (limit < outcomes.length → course.result?.isSome = true)) ∧
      (o.followRedirects = false → course = ⟨[first], outcomes.head?⟩) ∧
      (o.followRedirects = true →
        (∀ (k : Nat) url, (∃ r, course.requests[k]? = some r ∧ r.url = url) ↔
          Chain.Led join first.url outcomes k url ∧ k ≤ limit) ∧
        (∀ reply, course.result? = some (.ok reply) ↔
          ∃ k ≤ limit, ∃ url, Chain.Led join first.url outcomes k url ∧
            outcomes[k]? = some (.ok reply) ∧ ¬ ∃ location, reply.SendsTo location) ∧
        (∀ error, course.result? = some (.error error) ↔
          (∃ k ≤ limit, ∃ url, Chain.Led join first.url outcomes k url ∧
            outcomes[k]? = some (.error error)) ∨
          (∃ k < limit, ∃ url reply location fault, Chain.Led join first.url outcomes k url ∧
            outcomes[k]? = some (.ok reply) ∧ reply.SendsTo location ∧
            join url location = .error fault ∧ error = .badUrl (.unreadable location fault)) ∨
          ∃ url reply location, Chain.Led join first.url outcomes limit url ∧
            outcomes[limit]? = some (.ok reply) ∧ reply.SendsTo location ∧
            error = .tooManyRedirects limit) ∧
        (.error (.tooManyRedirects limit) ∉ outcomes →
          (course.result? = some (.error (.tooManyRedirects limit)) ↔
            ∃ url reply location, Chain.Led join first.url outcomes limit url ∧
              outcomes[limit]? = some (.ok reply) ∧ reply.SendsTo location))) ∧
      ∀ (k : Nat) r, course.requests[k]? = some r →
        (Chain.Switched first outcomes k →
          r.method = .get ∧ r.body = [] ∧ r.headers.every "Content-Type" = []) ∧
        (¬ Chain.Switched first outcomes k → r.method = first.method ∧ r.body = first.body ∧
          r.headers.every "Content-Type" = first.headers.every "Content-Type")) ∧
    let u := start join routing maxIdlePerHost idleTimeout network
    let v := u.run steps
    (∀ i o request, v.traffic.asked[i]? = some (o, request) →
      ∃ (first : Outgoing) (hops : List (Nat × Reply)), .submit o (v.hops i).limit first ∈ steps ∧
        let course := Chain.perform join o (v.hops i).limit { request := first }
        (course (outcomes hops)).requests[hops.length]? = some request ∧
        (course (outcomes hops)).result? = none ∧
        (∀ (k j : Nat) reply, hops[k]? = some (j, reply) → Came u steps j (.ok reply) ∧
          ∃ r, (course (outcomes hops)).requests[k]? = some r ∧
            v.traffic.asked[j]? = some (o, r)) ∧
        ∀ result, (v.hops i).state = .over result → ∃ outcome, Came u steps i outcome ∧
          (course (outcomes hops ++ [outcome])).result? = some result) ∧
    ∀ i n, Came u steps i (.error (.tooManyRedirects n)) →
      .giveUp i (.tooManyRedirects n) ∈ steps := by
  refine ⟨?law, ?threads, ?sober⟩
  case law =>
    intro o limit first outcomes course
    refine ⟨⟨Chain.head?_requests join o limit { request := first } outcomes,
      Chain.length_requests_le join o limit first outcomes,
      fun hlong => Chain.isSome_result? join o limit { request := first } hlong⟩,
      fun hstays => Chain.perform_of_not_follows hstays outcomes, fun hfollows => ?_,
      fun k r hr => ?_⟩
    · exact ⟨fun _ _ => Chain.requests_led_iff hfollows, fun _ => Chain.result?_ok_iff hfollows,
        fun _ => Chain.result?_error_iff hfollows, Chain.result?_tooManyRedirects_iff hfollows⟩
    · obtain ⟨d, hd, rfl⟩ := (Chain.requests_getElem? ..).1 hr
      obtain ⟨hget, hkept⟩ := hd.form
      simp only [Chain.form, Prod.mk.injEq] at hget hkept
      exact ⟨hget, hkept⟩
  case threads =>
    intro i o request hask
    have hthreaded := threaded_run join routing maxIdlePerHost idleTimeout network steps
    obtain ⟨first, hops, hthread⟩ := hthreaded.thread i _ hask
    have hstands := hthread.stands
    have hends (more : List (Except CallError Reply)) :=
      Chain.result?_of_stands ((length_outcomes hops).symm ▸ hstands) more
    refine ⟨first, hops, hthread.submitted, ?_, ?_, fun k j reply hk => ?_, fun result hover => ?_⟩
    · exact (Chain.requests_getElem? ..).2 ⟨_, hstands, rfl⟩
    · have hnone := hends []
      rw [List.append_nil] at hnone
      exact hnone
    · obtain ⟨hcame, c, hc, hasks⟩ := hthread.hop hk
      exact ⟨hcame, c.request, (Chain.requests_getElem? ..).2 ⟨c, hc, rfl⟩, hasks⟩
    · have haccounted := hthreaded.accounted i _ hask
      rw [Accounted, hover] at haccounted
      obtain ⟨outcome, hcame, hfinished⟩ := haccounted
      refine ⟨outcome, hcame, (hends [outcome]).trans ?_⟩
      rw [Chain.perform_of_finished hfinished]
  case sober =>
    intro i n hcame
    exact (hcame.limit?_eq join routing maxIdlePerHost idleTimeout network steps).resolve_left
      (Option.some_ne_none n)

/-! ### Redirected once too often -/

/-- A form that is posted. -/
def postedForm : Outgoing :=
  { method := .post, url := pageAt "example.com" none
    headers := [⟨"Content-Type", "text/plain"⟩], body := [0x61] }

/-- It is sent elsewhere, and on from there. -/
def movedTwice : List (Except CallError Reply) :=
  [.ok (movedTo "http://elsewhere.test/"), .ok (movedTo "/b")]

theorem over_visited : ((visited 12).hops 0).state =
    .over (.ok ⟨204, "No Content", "HTTP/1.1", [], []⟩) := by
  rw [← step_visited, ← step_visited, visited_ten, visited_nine]
  rfl

theorem asked_visited :
    (visited 12).traffic.asked[0]? = some (({} : ClientOptions), Traffic.pageRequest) := by
  rw [← step_visited, ← step_visited, visited_ten, visited_nine]
  decide +kernel

/-- A form that is posted and redirected once too often: its second request is a `GET`.  And a call
in a run, which is over with the reply it has got. -/
theorem run_redirects_posted :
    let course := Chain.perform Url.join following 1 { request := postedForm } movedTwice
    course.result? = some (.error (.tooManyRedirects 1)) ∧
    (∃ r, course.requests[1]? = some r ∧ r.url = pageAt "elsewhere.test" none ∧ r.method = .get ∧
      r.body = [] ∧ r.headers.every "Content-Type" = []) ∧
    ∃ (before : List (Except CallError Reply)) (outcome : Except CallError Reply),
      Came (start Url.join {} 8 90000 pageWorld) (visits 12) 0 outcome ∧
      (Chain.perform Url.join {} 0 { request := Traffic.pageRequest }
        (before ++ [outcome])).result? = some (.ok ⟨204, "No Content", "HTTP/1.1", [], []⟩) := by
  intro course
  have hfirst : (movedTo "http://elsewhere.test/").SendsTo "http://elsewhere.test/" :=
    ⟨by decide, by decide⟩
  have hsecond : (movedTo "/b").SendsTo "/b" := ⟨by decide, by decide⟩
  have hled : Chain.Led Url.join postedForm.url movedTwice 1 (pageAt "elsewhere.test" none) :=
    .next .start rfl hfirst (by decide)
  obtain ⟨hlaw, hruns, -⟩ := run_redirects Url.join {} 8 90000 pageWorld (visits 12)
  obtain ⟨-, -, hfollows, hforms⟩ := hlaw following 1 postedForm movedTwice
  obtain ⟨hurls, -, -, hlimit⟩ := hfollows rfl
  obtain ⟨r, hr, hurl⟩ := (hurls 1 (pageAt "elsewhere.test" none)).2 ⟨hled, by decide⟩
  have hswitched : Chain.Switched postedForm movedTwice 1 :=
    ⟨by decide, 0, by decide, _, rfl, .inr ⟨.inr rfl, rfl⟩⟩
  obtain ⟨hmethod, hbody, htype⟩ := (hforms 1 r hr).1 hswitched
  refine ⟨?_, ⟨r, hr, hurl, hmethod, hbody, htype⟩, ?_⟩
  · exact (hlimit (by decide)).2 ⟨_, _, _, hled, rfl, hsecond⟩
  · obtain ⟨first, hops, hsubmit, -, -, -, hends⟩ := hruns 0 {} Traffic.pageRequest asked_visited
    obtain ⟨outcome, hcame, hresult⟩ := hends _ over_visited
    rcases List.mem_cons.1 hsubmit with heq | hmem
    · injection heq with _ hlimit hfirst
      rw [hlimit, hfirst] at hresult
      exact ⟨outcomes hops, outcome, hcame, hresult⟩
    · cases List.eq_of_mem_replicate hmem

end HttpExchange.Calls
