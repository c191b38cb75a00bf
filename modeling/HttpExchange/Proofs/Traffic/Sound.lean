import HttpExchange.Proofs.Traffic.Later

/-!
# What is so after every run

`Sound` says that a link is in one place at a time, on a shelf once or with one caller, together
with what carries it: links are numbered by their streams, what a caller holds fits the stage it is
at, and what is on a shelf has come back in the pool's generation from an exchange that was read to
its end.

The moves that keep it are few:

* `Sound.turn` — a caller gets to another stage, with the link it has, without it, or with one that
  nobody has;
* `Sound.shrink` — idle links are dropped, or the world goes on;
* `Sound.putBack` — a link that nobody has is let go of;
* `Sound.enter` — somebody comes.
-/

namespace HttpExchange

namespace Traffic

/-! ### What is so of the links -/

/-- A link has come of a connect to its address, of some generation. -/
def Made (t : Traffic) (link : Link) (generation : Nat) : Prop :=
  ∃ ticket attempt, t.ticket? link.id = some ticket ∧ t.started[ticket]? = some attempt ∧
    attempt.route = ⟨link.destination, link.viaProxy⟩ ∧ attempt.address = link.address ∧
      attempt.generation = generation

/-- A link in hand fits the route that it was taken or made for. -/
structure Serves (t : Traffic) (route : Route) (h : Handle) : Prop where
  destination : h.link.destination = route.destination
  settled : h.link.Settled
  made : t.Made h.link h.generation
  fresh : h.reused = false → h.link.viaProxy = route.viaProxy

/-- The way that a caller's request takes. -/
def Goes (t : Traffic) (c : Caller) (route : Route) : Prop :=
  t.broker.routing.route c.options c.request = .ok route

/-- What a caller has at hand fits the stage it is at. -/
def Fits (t : Traffic) (c : Caller) : Stage → Prop
  | .choosing route => t.Goes c route
  | .probing route h => t.Goes c route ∧ t.Serves route h
  | .lacking route => t.Goes c route
  | .resolving route => t.Goes c route
  | .located route _ => t.Goes c route
  | .connecting ticket attempt => t.Goes c attempt.route ∧ t.started[ticket]? = some attempt
  | .holding h exchange => ∃ route, t.Goes c route ∧ t.Serves route h ∧
      (exchange.isSome = true → h.link.reusable = false)
  | .refused _ => True
  | .gone => True

/-- A link on the shelf of a destination is as it should be; it is there by the hand of the one who
last let go of it. -/
structure Rests (t : Traffic) (d : Destination) (link : Link) : Prop where
  destination : link.destination = d
  reusable : link.reusable = true
  settled : link.Settled
  made : t.Made link t.broker.pool.generation
  returned : ∃ h, t.returned.find? (·.link.id == link.id) = some h ∧
    h.generation = t.broker.pool.generation ∧ link = { h.link with idleSince := link.idleSince }

/-- What is so after every run. -/
structure Sound (t : Traffic) : Prop where
  exclusive : t.places.Nodup
  numbered : ∀ id ∈ t.places, id < t.broker.network.streams.size
  made_numbered : ∀ entry ∈ t.made, entry.1 < t.broker.network.streams.size
  started : ∀ a ∈ t.started, ∃ ask ∈ t.asked, t.broker.routing.route ask.1 ask.2 = .ok a.route
  fits : ∀ c ∈ t.callers, t.Fits c c.stage
  room : ∀ d, (t.broker.pool.idleTo d).length ≤ t.broker.pool.maxIdlePerHost
  rests : ∀ d, ∀ link ∈ t.broker.pool.idleTo d, t.Rests d link

variable {t u : Traffic} {i : Nat} {c : Caller}

namespace Later

theorem made_mono (h : t.Later u) {link : Link} {generation : Nat} (hmade : t.Made link generation) :
    u.Made link generation := by
  obtain ⟨ticket, attempt, hticket, hattempt, hroute⟩ := hmade
  exact ⟨ticket, attempt, h.ticket?_eq hticket, h.getElem?_started hattempt, hroute⟩

theorem serves_mono (h : t.Later u) {route : Route} {handle : Handle} (hs : t.Serves route handle) :
    u.Serves route handle :=
  ⟨hs.destination, hs.settled, h.made_mono hs.made, hs.fresh⟩

theorem goes_mono (h : t.Later u) {route : Route} (hgoes : t.Goes c route) : u.Goes c route := by
  rw [Goes, h.routing]
  exact hgoes

theorem fits_mono (h : t.Later u) {stage : Stage} (hfits : t.Fits c stage) : u.Fits c stage := by
  cases stage with
  | choosing => exact h.goes_mono hfits
  | probing => exact ⟨h.goes_mono hfits.1, h.serves_mono hfits.2⟩
  | lacking => exact h.goes_mono hfits
  | resolving => exact h.goes_mono hfits
  | located => exact h.goes_mono hfits
  | connecting => exact ⟨h.goes_mono hfits.1, h.getElem?_started hfits.2⟩
  | holding =>
    obtain ⟨route, hgoes, hserves, hinUse⟩ := hfits
    exact ⟨route, h.goes_mono hgoes, h.serves_mono hserves, hinUse⟩
  | refused => exact trivial
  | gone => exact trivial

/-- A link rests where it did as long as the generation is the same and nothing is put back. -/
theorem rests_mono (h : t.Later u)
    (hgeneration : u.broker.pool.generation = t.broker.pool.generation)
    (hreturned : u.returned = t.returned) {d : Destination} {link : Link} (hr : t.Rests d link) :
    u.Rests d link := by
  refine ⟨hr.destination, hr.reusable, hr.settled, ?_, ?_⟩
  · rw [hgeneration]
    exact h.made_mono hr.made
  · rw [hgeneration, hreturned]
    exact hr.returned

end Later

/-! ### The moves -/

theorem mem_places_of_idle {d : Destination} {link : Link}
    (h : link ∈ t.broker.pool.idleTo d) : link.id ∈ t.places :=
  List.mem_append_left _ (List.mem_map_of_mem (Pool.mem_idle_iff.2 ⟨d, h⟩))

namespace Sound

theorem fits_stage (hs : t.Sound) (hc : t.callers[i]? = some c) {stage : Stage}
    (hstage : c.stage = stage) : t.Fits c stage :=
  hstage ▸ hs.fits c (List.mem_of_getElem? hc)

/-- **A caller gets to another stage**, with the link it has, without it, or with one that is in no
place yet. -/
theorem turn (hs : t.Sound) (hc : t.callers[i]? = some c) {stage : Stage}
    (hlink : ∀ id ∈ stage.link?, id ∈ c.stage.link? ∨
      (id ∉ t.places ∧ id < t.broker.network.streams.size))
    (hfits : t.Fits c stage) : (t.turn i c stage).Sound := by
  have later : t.Later (t.turn i c stage) := (Later.refl t).turn rfl hc stage
  obtain ⟨others, hplaces, hturn⟩ := exists_places_perm hc
  have hplacesNodup := hplaces.nodup_iff.1 hs.exclusive
  have hothers : others.Nodup := (List.nodup_append.1 hplacesNodup).2.1
  have hsub : ∀ id ∈ others, id ∈ t.places := fun id hid =>
    hplaces.mem_iff.2 (List.mem_append_right _ hid)
  have hnew : ∀ id ∈ stage.link?, id ∉ others ∧ id < t.broker.network.streams.size := by
    intro id hid
    obtain hkept | ⟨hnotin, hlt⟩ := hlink id hid
    · have hmem : id ∈ c.stage.link?.toList := Option.mem_toList.2 hkept
      exact ⟨fun hother => (List.nodup_append.1 hplacesNodup).2.2 id hmem id hother rfl,
        hs.numbered id (hplaces.mem_iff.2 (List.mem_append_left _ hmem))⟩
    · exact ⟨fun hother => hnotin (hsub id hother), hlt⟩
  refine ⟨(hturn stage).nodup_iff.2 ?_, fun id hid => ?_, hs.made_numbered, ?_, ?_, hs.room, ?_⟩
  · cases hstage : stage.link? with
    | none => exact hothers
    | some id => exact List.nodup_cons.2 ⟨(hnew id (by rw [hstage]; rfl)).1, hothers⟩
  · rcases List.mem_append.1 ((hturn stage).mem_iff.1 hid) with hid | hid
    · exact (hnew id (Option.mem_toList.1 hid)).2
    · exact hs.numbered id (hsub id hid)
  · intro a ha
    rw [asked_turn hc]
    exact hs.started a ha
  · intro d hd
    rcases mem_callers_turn hd with hd | rfl
    · exact later.fits_mono (hs.fits d hd)
    · exact later.fits_mono hfits
  · exact fun d link hlink => later.rests_mono rfl rfl (hs.rests d link hlink)

/-- **Idle links are dropped, and the world goes on.** -/
theorem shrink (hs : t.Sound) (later : t.Later u) (hcallers : u.callers = t.callers)
    (hreturned : u.returned = t.returned)
    (hidle : ∃ dropped, t.broker.pool.idle.Perm (dropped ++ u.broker.pool.idle))
    (hidleTo : ∀ d, (u.broker.pool.idleTo d).Sublist (t.broker.pool.idleTo d))
    (hgeneration : u.broker.pool.idle ≠ [] → u.broker.pool.generation = t.broker.pool.generation)
    (hmade : ∀ entry ∈ u.made, entry ∈ t.made ∨ entry.1 < u.broker.network.streams.size)
    (hstarted : ∀ a ∈ u.started, a ∈ t.started ∨
      ∃ ask ∈ t.asked, t.broker.routing.route ask.1 ask.2 = .ok a.route) : u.Sound := by
  have hasked : u.asked = t.asked := congrArg (List.map _) hcallers
  have hheld : u.held = t.held := congrArg (List.filterMap _) hcallers
  obtain ⟨dropped, hperm⟩ := hidle
  have hplaces : t.places.Perm (dropped.map (·.id) ++ u.places) := by
    rw [places, places, hheld, ← List.append_assoc, ← List.map_append]
    exact (hperm.map _).append_right _
  refine ⟨(List.nodup_append.1 (hplaces.nodup_iff.1 hs.exclusive)).2.1, fun id hid => ?_,
    fun entry hentry => ?_, fun a ha => ?_, fun c hc => ?_, fun d => ?_, fun d link hlink => ?_⟩
  · have hbefore : id ∈ t.places := hplaces.mem_iff.2 (List.mem_append_right _ hid)
    exact Nat.lt_of_lt_of_le (hs.numbered id hbefore) later.streams
  · obtain hold | hlt := hmade entry hentry
    · exact Nat.lt_of_lt_of_le (hs.made_numbered entry hold) later.streams
    · exact hlt
  · rw [hasked, later.routing]
    obtain hold | hask := hstarted a ha
    · exact hs.started a hold
    · exact hask
  · rw [hcallers] at hc
    exact later.fits_mono (hs.fits c hc)
  · rw [later.maxIdlePerHost]
    exact Nat.le_trans (hidleTo d).length_le (hs.room d)
  · have hsome : u.broker.pool.idle ≠ [] := List.ne_nil_of_mem (Pool.mem_idle_iff.2 ⟨d, hlink⟩)
    exact later.rests_mono (hgeneration hsome) hreturned
      (hs.rests d link ((hidleTo d).subset hlink))

/-- **A link that is in no place is let go of**: it is put back, or gone. -/
theorem putBack (hs : t.Sound) {h : Handle} (hfree : h.link.id ∉ t.places)
    (hnumber : h.link.id < t.broker.network.streams.size) (hsettled : h.link.Settled)
    (hmade : t.Made h.link h.generation) :
    { t with broker := t.broker.release h, returned := h :: t.returned }.Sound := by
  let u : Traffic := { t with broker := t.broker.release h, returned := h :: t.returned }
  have later : t.Later u := later_release t h
  have hgeneration : u.broker.pool.generation = t.broker.pool.generation :=
    Broker.generation_release h
  have hkept : ∀ d, ∀ link ∈ t.broker.pool.idleTo d, u.Rests d link := by
    intro d link hlink
    have hr := hs.rests d link hlink
    have hne : ¬ (h.link.id == link.id) = true := by
      rw [beq_iff_eq]
      intro heq
      exact hfree (heq ▸ mem_places_of_idle hlink)
    have hlast : u.returned.find? (·.link.id == link.id) =
        t.returned.find? (·.link.id == link.id) := List.find?_cons_of_neg hne
    refine ⟨hr.destination, hr.reusable, hr.settled, ?_, ?_⟩
    · rw [hgeneration]
      exact later.made_mono hr.made
    · rw [hgeneration, hlast]
      exact hr.returned
  have hfits : ∀ c ∈ u.callers, u.Fits c c.stage := fun c hc => later.fits_mono (hs.fits c hc)
  obtain heq | ⟨hreusable, hsame, hroom, heq⟩ :=
    t.broker.pool.checkin_eq_self_or t.broker.network.clock h.generation h.link
  · have hpool : u.broker.pool = t.broker.pool := heq
    have hplaces : u.places = t.places := by rw [places, places, hpool]; rfl
    refine ⟨hplaces ▸ hs.exclusive, hplaces ▸ hs.numbered, hs.made_numbered, hs.started, hfits,
      ?_, ?_⟩
    all_goals rw [hpool]
    · exact hs.room
    · exact hkept
  · let put : Link := { h.link with idleSince := t.broker.network.clock }
    have hpool : u.broker.pool = t.broker.pool.shelve h.link.destination
        (put :: t.broker.pool.idleTo h.link.destination) := heq
    have hplaces : u.places.Perm (h.link.id :: t.places) := by
      have hidle : u.broker.pool.idle.Perm (put :: t.broker.pool.idle) := by
        rw [hpool, Pool.idle_shelve, List.cons_append]
        exact (t.broker.pool.idle_perm _).symm.cons put
      exact (hidle.map (·.id)).append_right t.held
    refine ⟨hplaces.nodup_iff.2 (List.nodup_cons.2 ⟨hfree, hs.exclusive⟩), fun id hid => ?_,
      hs.made_numbered, hs.started, hfits, fun d => ?_, fun d link hlink => ?_⟩
    · rcases List.mem_cons.1 (hplaces.mem_iff.1 hid) with rfl | hid
      · exact hnumber
      · exact hs.numbered id hid
    · rw [later.maxIdlePerHost, hpool, Pool.idleTo_shelve]
      split
      · exact hroom
      · exact hs.room d
    · rw [hpool, Pool.idleTo_shelve] at hlink
      split at hlink
      · next hd =>
        subst hd
        rcases List.mem_cons.1 hlink with rfl | hlink
        · refine ⟨rfl, hreusable, hsettled, ?_, h, ?_, ?_, rfl⟩
          · rw [hgeneration, hsame]
            exact later.made_mono hmade
          · exact List.find?_cons_of_pos (beq_self_eq_true h.link.id)
          · rw [hgeneration, hsame]
        · exact hkept _ link hlink
      · exact hkept d link hlink

/-- Something has happened to the network, or to the addresses. -/
theorem of_broker (hs : t.Sound) {b : Broker} (later : t.Later { t with broker := b })
    (hshelves : b.pool.shelves = t.broker.pool.shelves)
    (hgeneration : b.pool.generation = t.broker.pool.generation) :
    { t with broker := b }.Sound := by
  have hidle : b.pool.idle = t.broker.pool.idle := congrArg (List.flatMap Prod.snd) hshelves
  have hidleTo (d : Destination) : b.pool.idleTo d = t.broker.pool.idleTo d := by
    rw [Pool.idleTo, hshelves, Pool.idleTo]
  refine hs.shrink later rfl rfl ⟨[], ?_⟩ (fun d => ?_) (fun _ => hgeneration)
    (fun _ h => .inl h) (fun _ h => .inl h)
  · rw [List.nil_append, hidle]
  · rw [hidleTo]

theorem of_network (hs : t.Sound) {network : Network}
    (h : t.broker.network.streams.size ≤ network.streams.size) :
    { t with broker := { t.broker with network } }.Sound :=
  hs.of_broker (Later.of_network h) rfl rfl

/-- A caller goes on without a link. -/
theorem turn_empty (hs : t.Sound) (hc : t.callers[i]? = some c) {stage : Stage}
    (hlink : stage.link? = none) (hfits : t.Fits c stage) : (t.turn i c stage).Sound :=
  hs.turn hc (fun id hid => by rw [hlink] at hid; cases hid) hfits

/-- A caller goes on with the link it has. -/
theorem turn_same (hs : t.Sound) (hc : t.callers[i]? = some c) {stage : Stage}
    (hlink : stage.link? = c.stage.link?) (hfits : t.Fits c stage) : (t.turn i c stage).Sound :=
  hs.turn hc (fun _ hid => .inl (hlink ▸ hid)) hfits

/-- Somebody comes who has no link yet. -/
theorem enter (hs : t.Sound) (hlink : c.stage.link? = none) (hfits : t.Fits c c.stage) :
    { t with callers := t.callers ++ [c] }.Sound := by
  have later : t.Later { t with callers := t.callers ++ [c] } := later_enter t c
  have hplaces : { t with callers := t.callers ++ [c] }.places = t.places := by
    have hheld : (t.callers ++ [c]).filterMap (·.stage.link?) = t.held := by
      rw [List.filterMap_append, List.filterMap_cons, hlink]
      exact List.append_nil _
    exact congrArg (_ ++ ·) hheld
  refine ⟨hplaces ▸ hs.exclusive, hplaces ▸ hs.numbered, hs.made_numbered, fun a ha => ?_,
    fun d hd => ?_, hs.room, fun d link hlink => later.rests_mono rfl rfl (hs.rests d link hlink)⟩
  · obtain ⟨ask, hask, hroute⟩ := hs.started a ha
    exact ⟨ask, later.asked.subset hask, hroute⟩
  · rcases List.mem_append.1 hd with hd | hd
    · exact later.fits_mono (hs.fits d hd)
    · cases List.mem_singleton.1 hd
      exact later.fits_mono hfits

end Sound

end Traffic

end HttpExchange
