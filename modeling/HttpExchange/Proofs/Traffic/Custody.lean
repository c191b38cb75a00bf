import HttpExchange.Proofs.Traffic.Sound

/-!
# Every link in one place

Every action is made of the moves of `Sound`, so no interleaving of callers, resets and the world
puts a link in two places.

* `sound_step`, `sound_run` — what a step and a whole run preserve;
* `run_exclusive` — the places of links after any run, and the links on the shelves.
-/

namespace HttpExchange.Traffic

variable {t : Traffic} {i : Nat} {c : Caller}

/-! ### Every step preserves it -/

section Step

variable (hs : t.Sound)
include hs

theorem sound_ask (options : ClientOptions) (request : Outgoing) :
    (t.ask options request).Sound := by
  rw [ask]
  split
  · exact hs.enter rfl trivial
  · next hroute =>
    have hticked :
        { t with broker := { t.broker with network := t.broker.network.tick.2 } }.Sound :=
      hs.of_network (Nat.le_refl _)
    exact hticked.enter rfl hroute

section Caller

variable (hc : t.callers[i]? = some c)
include hc

theorem sound_take {route : Route} (hstage : c.stage = .choosing route) :
    (t.take i c route).Sound := by
  have hgoes : t.Goes c route := hs.fits_stage hc hstage
  have htakes := t.broker.pool.checkout_takesOut t.broker.network.clock route.destination
  rw [take]
  generalize t.broker.pool.checkout t.broker.network.clock route.destination = result at htakes ⊢
  obtain ⟨found, pool⟩ := result
  let w : Traffic := { t with broker := { t.broker with pool } }
  have later : t.Later w := Later.of_pool htakes.maxIdlePerHost htakes.generation
  obtain ⟨dropped, hidle⟩ := htakes.idle
  have hw : w.Sound := by
    refine hs.shrink later rfl rfl ⟨dropped ++ found.toList, ?_⟩ htakes.sublist_idleTo
      (fun _ => htakes.generation) (fun _ h => .inl h) (fun _ h => .inl h)
    rw [List.append_assoc]
    exact hidle
  cases found with
  | none => exact hw.turn_empty hc rfl (later.goes_mono hgoes)
  | some link =>
    have hlink := htakes.mem_idleTo_of_found rfl
    have hrests := hs.rests _ link hlink
    refine hw.turn hc (fun id hid => .inr ?_) ⟨later.goes_mono hgoes, hrests.destination,
      hrests.settled, ?_, fun h => by cases h⟩
    · cases hid
      have hplaces : t.places.Perm (dropped.map (·.id) ++ link.id :: w.places) := by
        have hall := (hidle.map (·.id)).append_right t.held
        rw [List.map_append, List.append_assoc] at hall
        exact hall
      have hnodup := (List.nodup_append.1 (hplaces.nodup_iff.1 hs.exclusive)).2.1
      exact ⟨(List.nodup_cons.1 hnodup).1, hs.numbered _ (mem_places_of_idle hlink)⟩
    · rw [htakes.generation]
      exact later.made_mono hrests.made

theorem sound_probe {route : Route} {h : Handle} (hstage : c.stage = .probing route h) :
    (t.probe i c route h).Sound := by
  obtain ⟨hgoes, hserves⟩ := hs.fits_stage hc hstage
  have halive := @Network.probe_alive t.broker.network h.link
  have hsize := t.broker.network.size_probe h.link
  rw [probe]
  generalize t.broker.network.probe h.link = result at halive hsize ⊢
  obtain ⟨stale, link, network⟩ := result
  let w : Traffic := { t with broker := { t.broker with network } }
  have later : t.Later w := Later.of_network (Nat.le_of_eq hsize.symm)
  have hw : w.Sound := hs.of_network (Nat.le_of_eq hsize.symm)
  cases stale with
  | true => exact hw.turn_empty hc rfl (later.goes_mono hgoes)
  | false =>
    obtain rfl : link = h.link := halive rfl
    exact hw.turn_same hc (by rw [hstage]; rfl)
      ⟨route, later.goes_mono hgoes, later.serves_mono hserves, fun h => by cases h⟩

theorem sound_locate {route : Route} (hstage : c.stage = .lacking route) :
    (t.locate i c route).Sound := by
  have hgoes : t.Goes c route := hs.fits_stage hc hstage
  rw [locate]
  generalize (if c.options.cacheAddresses = true then _ else _ : Option Address) = found
  cases found <;> exact hs.turn_empty hc rfl hgoes

theorem sound_answer {route : Route} (hstage : c.stage = .resolving route)
    (result : Except IoError Address) : (t.answer i c route result).Sound := by
  have hgoes : t.Goes c route := hs.fits_stage hc hstage
  obtain ⟨error, heq⟩ | ⟨address, pool, hshelves, hgeneration, hmax, heq⟩ :=
    t.answer_cases i c route result
  · rw [heq]
    exact hs.turn_empty hc rfl trivial
  · rw [heq]
    have later := Later.of_pool hmax hgeneration
    exact (hs.of_broker later hshelves hgeneration).turn_empty hc rfl hgoes

theorem sound_dial {route : Route} {address : Address}
    (hstage : c.stage = .located route address) : (t.dial i c route address).Sound := by
  have hgoes : t.Goes c route := hs.fits_stage hc hstage
  let attempt : Attempt := ⟨route, address, t.broker.pool.generation⟩
  let w : Traffic := { t with started := t.started ++ [attempt] }
  have later : t.Later w := later_started t route address
  have hw : w.Sound := by
    refine hs.shrink later rfl rfl ⟨[], List.Perm.refl _⟩ (fun _ => List.Sublist.refl _)
      (fun _ => rfl) (fun _ h => .inl h) fun a ha => ?_
    rcases List.mem_append.1 ha with ha | ha
    · exact .inl ha
    · cases List.mem_singleton.1 ha
      exact .inr ⟨_, List.mem_map_of_mem (List.mem_of_getElem? hc), hgoes⟩
  exact hw.turn_empty hc rfl ⟨hgoes, List.getElem?_concat_length⟩

theorem sound_connect {ticket : Nat} {attempt : Attempt}
    (hstage : c.stage = .connecting ticket attempt) : (t.connect i c ticket attempt).Sound := by
  obtain ⟨hgoes, hstarted⟩ := hs.fits_stage hc hstage
  obtain ⟨network, hsize, ⟨error, heq⟩ | ⟨hlt, heq⟩⟩ := t.broker.connect_cases attempt
  · rw [connect, heq]
    exact (hs.of_network hsize).turn_empty hc rfl trivial
  · rw [connect, heq]
    let w : Traffic := { t with
      broker := { t.broker with network }
      made := t.made ++ [(t.broker.network.streams.size, ticket)] }
    have later : t.Later w := later_made t hsize _
    have hw : w.Sound := by
      refine hs.shrink later rfl rfl ⟨[], List.Perm.refl _⟩ (fun _ => List.Sublist.refl _)
        (fun _ => rfl) (fun entry hentry => ?_) (fun _ h => .inl h)
      rcases List.mem_append.1 hentry with hentry | hentry
      · exact .inl hentry
      · cases List.mem_singleton.1 hentry
        exact .inr hlt
    have hticket : w.ticket? t.broker.network.streams.size = some ticket := by
      have hfresh : t.made.lookup t.broker.network.streams.size = none :=
        List.lookup_eq_none_iff.2 fun entry hentry =>
          bne_iff_ne.2 (Nat.ne_of_gt (hs.made_numbered entry hentry))
      rw [ticket?, List.lookup_append, hfresh, List.lookup_cons_self]
      rfl
    refine hw.turn hc (fun id hid => .inr ?_) ⟨attempt.route, later.goes_mono hgoes,
      ⟨rfl, fun _ => rfl, ⟨ticket, attempt, hticket, hstarted, rfl, rfl, rfl⟩, fun _ => rfl⟩,
      fun h => by cases h⟩
    cases hid
    exact ⟨fun hid => Nat.lt_irrefl _ (hs.numbered _ hid), hlt⟩

theorem sound_settle {h : Handle} {exchange : Option Exchange}
    (hstage : c.stage = .holding h exchange) {p : Exchange.Progress}
    (hleaves : Exchange.Leaves h.link p) :
    (t.settle i c (p.outcome, { h with link := p.link }, t.broker.settle p)).Sound := by
  obtain ⟨route, hgoes, hserves, -⟩ := hs.fits_stage hc hstage
  obtain ⟨buffer, reusable, hlink⟩ := hleaves.same
  have later : t.Later { t with broker := t.broker.settle p } := later_broker_settle t p
  refine (hs.of_broker later rfl rfl).turn_same hc ?_
    ⟨route, hgoes, ⟨?_, hleaves.settled, ?_, ?_⟩, fun hwaits => ?_⟩
  · rw [hstage, Stage.link?, Stage.handle?, hlink]
    rfl
  · rw [hlink]
    exact hserves.destination
  · rw [hlink]
    exact hserves.made
  · rw [hlink]
    exact hserves.fresh
  · cases houtcome : p.outcome with
    | finished result =>
      rw [houtcome] at hwaits
      cases hwaits
    | waiting exchange wake => exact hleaves.inUse exchange wake houtcome

theorem sound_drop {h : Handle} (hstage : c.stage = .holding h none) : (t.drop i c h).Sound := by
  obtain ⟨route, -, hserves, -⟩ := hs.fits_stage hc hstage
  have later : t.Later (t.turn i c .gone) := (Later.refl t).turn rfl hc _
  obtain ⟨others, hplaces, hturn⟩ := exists_places_perm hc
  rw [hstage] at hplaces
  have hfree : h.link.id ∉ (t.turn i c .gone).places := fun hid =>
    (List.nodup_cons.1 (hplaces.nodup_iff.1 hs.exclusive)).1 ((hturn .gone).mem_iff.1 hid)
  have hnumber := hs.numbered _ (hplaces.mem_iff.2 List.mem_cons_self)
  have hgone : (t.turn i c .gone).Sound := hs.turn_empty hc rfl trivial
  exact hgone.putBack hfree hnumber hserves.settled (later.made_mono hserves.made)

theorem sound_act (deed : Deed) : (t.act i c deed).Sound := by
  rw [act.eq_def]
  split
  · next hstage => exact sound_take hs hc hstage
  · next hstage => exact sound_probe hs hc hstage
  · next hstage => exact sound_locate hs hc hstage
  · next hstage => exact sound_answer hs hc hstage _
  · next hstage => exact sound_dial hs hc hstage
  · next hstage => exact sound_connect hs hc hstage
  · exact hs.turn_empty hc rfl trivial
  · exact hs.turn_empty hc rfl trivial
  · next request h hstage => exact sound_settle hs hc hstage (Link.send_leaves _ _ _ _ _)
  · next h x hstage =>
    obtain ⟨_, _, _, hinUse⟩ := hs.fits_stage hc hstage
    exact sound_settle hs hc hstage (Exchange.run_leaves _ _ (hinUse rfl) _ _)
  · next h x hstage =>
    obtain ⟨route, hgoes, hserves, -⟩ := hs.fits_stage hc hstage
    exact hs.turn_same hc (by rw [hstage]; rfl) ⟨route, hgoes, hserves, fun h => by cases h⟩
  · next hstage => exact sound_drop hs hc hstage
  · next h hstage =>
    exact (hs.of_broker (later_broker_discard t h) rfl rfl).turn_empty hc rfl trivial
  · exact hs

end Caller

theorem sound_step (action : Action) : (t.step action).Sound := by
  cases action with
  | ask options request => exact sound_ask hs options request
  | caller i deed =>
    rw [step]
    split
    · next hc => exact sound_act hs hc deed
    · exact hs
  | forget => exact hs.of_broker (later_step t .forget) rfl rfl
  | reset =>
    refine hs.shrink (later_step t .reset) rfl rfl ⟨t.broker.pool.idle, ?_⟩
      (fun d => List.nil_sublist _) (fun h => absurd rfl h) (fun _ h => .inl h) (fun _ h => .inl h)
    exact (List.append_nil _).symm ▸ List.Perm.refl _
  | world network =>
    rw [step]
    split
    · next hsize => exact hs.of_network hsize
    · exact hs

/-- **Every run preserves it.** -/
theorem sound_run (actions : List Action) : (t.run actions).Sound := by
  induction actions generalizing t with
  | nil => exact hs
  | cons action rest ih => exact ih (sound_step hs action)

end Step

theorem sound_start (routing : Routing) (maxIdlePerHost idleTimeout : Nat) (network : Network) :
    (start routing maxIdlePerHost idleTimeout network).Sound :=
  ⟨List.nodup_nil, fun _ h => absurd h List.not_mem_nil, fun _ h => absurd h List.not_mem_nil,
    fun _ h => absurd h List.not_mem_nil, fun _ h => absurd h List.not_mem_nil,
    fun _ => Nat.zero_le _, fun _ _ h => absurd h List.not_mem_nil⟩

/-! ### The places of links -/

/-- Two callers never hold one link. -/
theorem Sound.link_ne (hs : t.Sound) {j : Nat} {d : Caller} (hc : t.callers[i]? = some c)
    (hd : t.callers[j]? = some d) (hne : i ≠ j) {id : Nat} (hlink : c.stage.link? = some id) :
    d.stage.link? ≠ some id := by
  intro hother
  obtain ⟨hi, rfl⟩ := List.getElem?_eq_some_iff.1 hc
  obtain ⟨hj, rfl⟩ := List.getElem?_eq_some_iff.1 hd
  have hheld : t.held.Nodup := (List.nodup_append.1 hs.exclusive).2.1
  have hapart := List.pairwise_iff_getElem.1 (List.pairwise_filterMap.1 hheld)
  rcases Nat.lt_or_gt_of_ne hne with hlt | hgt
  · exact hapart i j hi hj hlt id hlink id hother rfl
  · exact hapart j i hj hi hgt id hother id hlink rfl

/-- **Every link is in one place.**  After any run no number stands twice among the idle links and
those in use, so no two callers hold one link.  The shelf of a destination has no more links than
it may, all to that destination, reusable and with nothing left over; and each was put there in the
pool's generation, by the handle that was last let go of with it. -/
theorem run_exclusive (routing : Routing) (maxIdlePerHost idleTimeout : Nat) (network : Network)
    (actions : List Action) :
    let t := (start routing maxIdlePerHost idleTimeout network).run actions
    t.places.Nodup ∧
      (∀ (i j : Nat) (c d : Caller), t.callers[i]? = some c → t.callers[j]? = some d → i ≠ j →
        ∀ id, c.stage.link? = some id → d.stage.link? ≠ some id) ∧
      ∀ d links, (d, links) ∈ t.broker.pool.shelves →
        links.length ≤ maxIdlePerHost ∧
          ∀ link ∈ links, link.destination = d ∧ link.reusable = true ∧ link.buffer = [] ∧
            ∃ h, t.returned.find? (·.link.id == link.id) = some h ∧
              h.generation = t.broker.pool.generation ∧
              link = { h.link with idleSince := link.idleSince } := by
  intro t
  have hs : t.Sound :=
    sound_run (sound_start routing maxIdlePerHost idleTimeout network) actions
  have hmax : t.broker.pool.maxIdlePerHost = maxIdlePerHost := (later_run _ actions).maxIdlePerHost
  refine ⟨hs.exclusive, fun i j c d hc hd hne id => hs.link_ne hc hd hne, ?_⟩
  intro d links hshelf
  have hlinks : t.broker.pool.idleTo d = links := Pool.idleTo_eq_of_mem hshelf
  refine ⟨?_, fun link hlink => ?_⟩
  · rw [← hlinks, ← hmax]
    exact hs.room d
  · have hrests := hs.rests d link (hlinks ▸ hlink)
    exact ⟨hrests.destination, hrests.reusable, hrests.settled hrests.reusable, hrests.returned⟩

end HttpExchange.Traffic
