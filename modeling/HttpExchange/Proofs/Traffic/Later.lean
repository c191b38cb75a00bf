import HttpExchange.Proofs.Link.Usage
import HttpExchange.Proofs.Pool.Shelves
import HttpExchange.Proofs.Traffic.Basic

/-!
# What only grows as callers come and go

`Later t u` says what never goes back from `t` to `u`: the generation of the pool, the number of
streams, and the records of who has asked and which connects were started.  A connect that is
started in between belongs to a generation in between.

* `later_run` — every run leads to something later;
* `generation_run` — the generation stays until a reset.
-/

namespace HttpExchange

/-! ### What the broker's operations leave -/

namespace Broker

variable {b : Broker}

theorem generation_release (h : Handle) :
    (b.release h).pool.generation = b.pool.generation :=
  Pool.generation_checkin _ _ _ _

theorem maxIdlePerHost_release (h : Handle) :
    (b.release h).pool.maxIdlePerHost = b.pool.maxIdlePerHost :=
  Pool.maxIdlePerHost_checkin _ _ _ _

theorem size_discard (h : Handle) :
    (b.discard h).network.streams.size = b.network.streams.size :=
  Network.size_withStream _ _ _

theorem size_settle (p : Exchange.Progress) :
    (b.settle p).network.streams.size = b.network.streams.size :=
  Network.size_withStream _ _ _

end Broker

/-- What a connect comes to: a failure, or the number of a new stream. -/
theorem Network.connect_cases (n : Network) (d : Destination) (a : Address) :
    ∃ network, n.streams.size ≤ network.streams.size ∧
      ((∃ error, n.connect d a = (.error error, network)) ∨
        (n.streams.size < network.streams.size ∧
          n.connect d a = (.ok n.streams.size, network))) := by
  rw [connect]
  split
  · refine ⟨_, ?_, .inl ⟨_, rfl⟩⟩
    exact Nat.le_refl _
  · refine ⟨_, ?_, .inl ⟨_, rfl⟩⟩
    exact Nat.le_refl _
  · next stream rest _ =>
    have hlt : n.streams.size < (n.streams.push stream).size :=
      Array.size_push stream ▸ Nat.lt_succ_self _
    refine ⟨_, ?_, .inr ⟨?_, rfl⟩⟩
    · exact Nat.le_of_lt hlt
    · exact hlt

/-- What a connect comes to: a failure, or a handle on a link with a new number. -/
theorem Broker.connect_cases (b : Broker) (a : Attempt) :
    ∃ network, b.network.streams.size ≤ network.streams.size ∧
      ((∃ error, b.connect a = (.error error, { b with network })) ∨
        (b.network.streams.size < network.streams.size ∧
          b.connect a = (.ok
            { link := { id := b.network.streams.size, destination := a.route.destination,
                        address := a.address, viaProxy := a.route.viaProxy },
              generation := a.generation, reused := false }, { b with network }))) := by
  obtain ⟨network, hsize, ⟨error, heq⟩ | ⟨hlt, heq⟩⟩ :=
    b.network.connect_cases a.route.destination a.address
  · exact ⟨network, hsize, .inl ⟨_, by rw [connect, heq]; rfl⟩⟩
  · exact ⟨network, hsize, .inr ⟨hlt, by rw [connect, heq]; rfl⟩⟩

namespace Traffic

/-- What comes of the resolver's answer: a failure, or an address that may be kept. -/
theorem answer_cases (t : Traffic) (i : Nat) (c : Caller) (route : Route)
    (result : Except IoError Address) :
    (∃ error, t.answer i c route result = t.turn i c (.refused error)) ∨
      ∃ address pool, pool.shelves = t.broker.pool.shelves ∧
        pool.generation = t.broker.pool.generation ∧
        pool.maxIdlePerHost = t.broker.pool.maxIdlePerHost ∧
        t.answer i c route result =
          { t with broker := { t.broker with pool } }.turn i c (.located route address) := by
  cases result with
  | error error => exact .inl ⟨_, rfl⟩
  | ok address =>
    rw [answer]
    cases c.options.cacheAddresses with
    | false => exact .inr ⟨address, t.broker.pool, rfl, rfl, rfl, rfl⟩
    | true =>
      let pool := t.broker.pool.remember (Acquire.endpoint route) address
      exact .inr ⟨address, pool, rfl, rfl, rfl, rfl⟩

/-! ### Later -/

/-- What never goes back. -/
structure Later (t u : Traffic) : Prop where
  routing : u.broker.routing = t.broker.routing
  maxIdlePerHost : u.broker.pool.maxIdlePerHost = t.broker.pool.maxIdlePerHost
  generation : t.broker.pool.generation ≤ u.broker.pool.generation
  streams : t.broker.network.streams.size ≤ u.broker.network.streams.size
  asked : t.asked <+: u.asked
  made : t.made <+: u.made
  started : ∃ more, u.started = t.started ++ more ∧
    ∀ a ∈ more, t.broker.pool.generation ≤ a.generation ∧ a.generation ≤ u.broker.pool.generation

namespace Later

variable {t u v : Traffic}

theorem refl (t : Traffic) : t.Later t :=
  ⟨rfl, rfl, Nat.le_refl _, Nat.le_refl _, List.prefix_rfl, List.prefix_rfl,
    [], (List.append_nil _).symm, fun _ h => nomatch h⟩

theorem trans (h : t.Later u) (g : u.Later v) : t.Later v where
  routing := g.routing.trans h.routing
  maxIdlePerHost := g.maxIdlePerHost.trans h.maxIdlePerHost
  generation := Nat.le_trans h.generation g.generation
  streams := Nat.le_trans h.streams g.streams
  asked := h.asked.trans g.asked
  made := h.made.trans g.made
  started := by
    obtain ⟨first, hfirst, hfirstGen⟩ := h.started
    obtain ⟨more, hmore, hmoreGen⟩ := g.started
    refine ⟨first ++ more, by rw [hmore, hfirst, List.append_assoc], fun a ha => ?_⟩
    rcases List.mem_append.1 ha with ha | ha
    · exact ⟨(hfirstGen a ha).1, Nat.le_trans (hfirstGen a ha).2 g.generation⟩
    · exact ⟨Nat.le_trans h.generation (hmoreGen a ha).1, (hmoreGen a ha).2⟩

/-- Something has happened to the pool or the network only. -/
theorem of_broker {b : Broker} (hrouting : b.routing = t.broker.routing)
    (hmax : b.pool.maxIdlePerHost = t.broker.pool.maxIdlePerHost)
    (hgeneration : t.broker.pool.generation ≤ b.pool.generation)
    (hstreams : t.broker.network.streams.size ≤ b.network.streams.size) :
    t.Later { t with broker := b } :=
  ⟨hrouting, hmax, hgeneration, hstreams, List.prefix_rfl, List.prefix_rfl,
    [], (List.append_nil _).symm, fun _ h => nomatch h⟩

/-- Something has happened to the network only. -/
theorem of_network {network : Network}
    (h : t.broker.network.streams.size ≤ network.streams.size) :
    t.Later { t with broker := { t.broker with network } } :=
  of_broker rfl rfl (Nat.le_refl _) h

/-- Something has happened to the pool only. -/
theorem of_pool {pool : Pool} (hmax : pool.maxIdlePerHost = t.broker.pool.maxIdlePerHost)
    (hgeneration : pool.generation = t.broker.pool.generation) :
    t.Later { t with broker := { t.broker with pool } } :=
  of_broker rfl hmax (Nat.le_of_eq hgeneration.symm) (Nat.le_refl _)

/-- One caller gets to another stage on top of it. -/
theorem turn {i : Nat} {c : Caller} (h : t.Later u) (hcallers : u.callers = t.callers)
    (hc : t.callers[i]? = some c) (stage : Stage) : t.Later (u.turn i c stage) where
  routing := h.routing
  maxIdlePerHost := h.maxIdlePerHost
  generation := h.generation
  streams := h.streams
  asked := by rw [asked_turn (hcallers ▸ hc)]; exact h.asked
  made := h.made
  started := h.started

/-- A connect that was started stays where it is in the record. -/
theorem getElem?_started (h : t.Later u) {ticket : Nat} {a : Attempt}
    (ha : t.started[ticket]? = some a) : u.started[ticket]? = some a := by
  obtain ⟨more, hmore, -⟩ := h.started
  rw [hmore, List.getElem?_append_left (List.getElem?_eq_some_iff.1 ha).1, ha]

theorem ticket?_eq (h : t.Later u) {id ticket : Nat} (hticket : t.ticket? id = some ticket) :
    u.ticket? id = some ticket := by
  obtain ⟨more, hmore⟩ := h.made
  rw [ticket?] at hticket
  rw [ticket?, ← hmore, List.lookup_append, hticket]
  rfl

end Later

/-! ### Every step leads to something later -/

variable {t : Traffic} {i : Nat} {c : Caller}

theorem later_enter (t : Traffic) (c : Caller) :
    t.Later { t with callers := t.callers ++ [c] } := by
  have hasked : t.asked <+: (t.callers ++ [c]).map fun c => (c.options, c.request) := by
    rw [List.map_append]
    exact List.prefix_append _ _
  exact ⟨rfl, rfl, Nat.le_refl _, Nat.le_refl _, hasked, List.prefix_rfl,
    [], (List.append_nil _).symm, fun _ h => nomatch h⟩

theorem later_ask (t : Traffic) (options : ClientOptions) (request : Outgoing) :
    t.Later (t.ask options request) := by
  rw [ask]
  split
  · exact later_enter t _
  · have hticked : t.Later
        { t with broker := { t.broker with network := t.broker.network.tick.2 } } :=
      Later.of_network (Nat.le_refl _)
    exact hticked.trans (later_enter _ _)

theorem later_take (hc : t.callers[i]? = some c) (route : Route) :
    t.Later (t.take i c route) := by
  have htakes := t.broker.pool.checkout_takesOut t.broker.network.clock route.destination
  exact (Later.of_pool htakes.maxIdlePerHost htakes.generation).turn rfl hc _

theorem later_probe (hc : t.callers[i]? = some c) (route : Route) (h : Handle) :
    t.Later (t.probe i c route h) := by
  have hsize := t.broker.network.size_probe h.link
  exact (Later.of_network (Nat.le_of_eq hsize.symm)).turn rfl hc _

theorem later_locate (hc : t.callers[i]? = some c) (route : Route) :
    t.Later (t.locate i c route) :=
  (Later.refl t).turn rfl hc _

theorem later_answer (hc : t.callers[i]? = some c) (route : Route)
    (result : Except IoError Address) : t.Later (t.answer i c route result) := by
  obtain ⟨error, heq⟩ | ⟨address, pool, -, hgeneration, hmax, heq⟩ :=
    t.answer_cases i c route result
  · rw [heq]
    exact (Later.refl t).turn rfl hc _
  · rw [heq]
    exact (Later.of_pool hmax hgeneration).turn rfl hc _

theorem later_started (t : Traffic) (route : Route) (address : Address) :
    t.Later { t with
      started := t.started ++ [⟨route, address, t.broker.pool.generation⟩] } := by
  refine ⟨rfl, rfl, Nat.le_refl _, Nat.le_refl _, List.prefix_rfl, List.prefix_rfl,
    _, rfl, fun a ha => ?_⟩
  rw [List.mem_singleton.1 ha]
  exact ⟨Nat.le_refl _, Nat.le_refl _⟩

theorem later_dial (hc : t.callers[i]? = some c) (route : Route) (address : Address) :
    t.Later (t.dial i c route address) :=
  (later_started t route address).turn rfl hc _

theorem later_made (t : Traffic) {network : Network}
    (hstreams : t.broker.network.streams.size ≤ network.streams.size) (entry : Nat × Nat) :
    t.Later { t with broker := { t.broker with network }, made := t.made ++ [entry] } :=
  ⟨rfl, rfl, Nat.le_refl _, hstreams, List.prefix_rfl, List.prefix_append _ _,
    [], (List.append_nil _).symm, fun _ h => nomatch h⟩

theorem later_connect (hc : t.callers[i]? = some c) (ticket : Nat) (attempt : Attempt) :
    t.Later (t.connect i c ticket attempt) := by
  obtain ⟨network, hsize, ⟨error, heq⟩ | ⟨-, heq⟩⟩ := t.broker.connect_cases attempt
  · rw [connect, heq]
    exact (Later.of_network hsize).turn rfl hc _
  · rw [connect, heq]
    exact (later_made t hsize _).turn rfl hc _

theorem later_broker_settle (t : Traffic) (p : Exchange.Progress) :
    t.Later { t with broker := t.broker.settle p } :=
  Later.of_network (Nat.le_of_eq (Broker.size_settle p).symm)

theorem later_settle (hc : t.callers[i]? = some c) (h : Handle) (p : Exchange.Progress) :
    t.Later (t.settle i c (p.outcome, h, t.broker.settle p)) :=
  (later_broker_settle t p).turn rfl hc _

theorem later_release (t : Traffic) (h : Handle) :
    t.Later { t with broker := t.broker.release h, returned := h :: t.returned } :=
  ⟨rfl, Broker.maxIdlePerHost_release h, Nat.le_of_eq (Broker.generation_release h).symm,
    Nat.le_refl _, List.prefix_rfl, List.prefix_rfl,
    [], (List.append_nil _).symm, fun _ h => nomatch h⟩

theorem later_drop (hc : t.callers[i]? = some c) (h : Handle) : t.Later (t.drop i c h) :=
  (later_release t h).turn rfl hc _

theorem later_broker_discard (t : Traffic) (h : Handle) :
    t.Later { t with broker := t.broker.discard h } :=
  Later.of_network (Nat.le_of_eq (Broker.size_discard h).symm)

theorem later_discard (hc : t.callers[i]? = some c) (h : Handle) :
    t.Later (t.discard i c h) :=
  (later_broker_discard t h).turn rfl hc _

theorem later_act (hc : t.callers[i]? = some c) (deed : Deed) : t.Later (t.act i c deed) := by
  rw [act.eq_def]
  split
  · exact later_take hc _
  · exact later_probe hc _ _
  · exact later_locate hc _
  · exact later_answer hc _ _
  · exact later_dial hc _ _
  · exact later_connect hc _ _
  · exact (Later.refl t).turn rfl hc _
  · exact (Later.refl t).turn rfl hc _
  · exact later_settle hc _ _
  · exact later_settle hc _ _
  · exact (Later.refl t).turn rfl hc _
  · exact later_drop hc _
  · exact later_discard hc _
  · exact Later.refl t

theorem later_step (t : Traffic) (action : Action) : t.Later (t.step action) := by
  cases action with
  | ask options request => exact later_ask t options request
  | caller i deed =>
    rw [step]
    split
    · next hc => exact later_act hc deed
    · exact Later.refl t
  | forget => exact Later.of_pool rfl rfl
  | reset => exact Later.of_broker rfl rfl (Nat.le_succ _) (Nat.le_refl _)
  | world network =>
    rw [step]
    split
    · next hsize => exact Later.of_network hsize
    · exact Later.refl t

/-- **Every run leads to something later.** -/
theorem later_run (t : Traffic) (actions : List Action) : t.Later (t.run actions) := by
  induction actions generalizing t with
  | nil => exact Later.refl t
  | cons action rest ih => exact (later_step t action).trans (ih (t.step action))

/-! ### The generation stays until a reset -/

theorem generation_act (t : Traffic) (i : Nat) (c : Caller) (deed : Deed) :
    (t.act i c deed).broker.pool.generation = t.broker.pool.generation := by
  rw [act.eq_def]
  split
  · exact (t.broker.pool.checkout_takesOut _ _).generation
  · rfl
  · rfl
  · next result route _ =>
    obtain ⟨error, heq⟩ | ⟨address, pool, -, hgeneration, -, heq⟩ :=
      t.answer_cases i c route result
    · rw [heq]
      rfl
    · rw [heq]
      exact hgeneration
  · rfl
  · next ticket attempt _ =>
    rw [connect]
    obtain ⟨network, -, ⟨error, heq⟩ | ⟨-, heq⟩⟩ := t.broker.connect_cases attempt
    all_goals
      rw [heq]
      rfl
  · rfl
  · rfl
  · rfl
  · rfl
  · rfl
  · exact Broker.generation_release _
  · rfl
  · rfl

theorem generation_step (t : Traffic) {action : Action} (h : action ≠ .reset) :
    (t.step action).broker.pool.generation = t.broker.pool.generation := by
  cases action with
  | ask options request =>
    rw [step, ask]
    split <;> rfl
  | caller i deed =>
    rw [step]
    split
    · exact generation_act t i _ deed
    · rfl
  | forget => rfl
  | reset => exact absurd rfl h
  | world network =>
    rw [step]
    split <;> rfl

/-- **The generation stays until a reset.** -/
theorem generation_run (t : Traffic) {actions : List Action} (h : .reset ∉ actions) :
    (t.run actions).broker.pool.generation = t.broker.pool.generation := by
  induction actions generalizing t with
  | nil => rfl
  | cons action rest ih =>
    rw [List.mem_cons, not_or] at h
    exact (ih (t.step action) h.2).trans (generation_step t (Ne.symm h.1))

end Traffic

end HttpExchange
