import HttpExchange.Proofs.Traffic.Forgotten

/-!
# Addresses that are kept

A caller whose request may use the addresses that are kept looks there first, and keeps what it
hears of the resolver.  Others do neither.

* `Learns`, `Stroke.forgets` — the strokes that keep an address, and those that drop all;
* `address?_stroke` — what is kept of a host and port after a stroke;
* `exists_address?_strokes` — what is kept stays, another may come for it, until it is forgotten;
* `lacks_of_asked` — who asks the resolver has found nothing kept, or must not look;
* `strokes_cached` — so it is asked once for all who keep, and each time by the others.
-/

namespace HttpExchange

open scoped List

/-- Whether the addresses that are kept are forgotten, alone or with a reset of the pool. -/
def Stroke.forgets : Stroke → Bool
  | .action .forget => true
  | .action .reset => true
  | _ => false

namespace Traffic

/-- By a stroke a caller that keeps what it hears hears the address for a host and port. -/
def Learns (t : Traffic) (s : Stroke) (e : Endpoint) (a : Address) : Prop :=
  ∃ i c, s = .action (.caller i (.answer (.ok a))) ∧ t.callers[i]? = some c ∧
    c.options.cacheAddresses = true ∧ c.stage.awaited? = some e

/-- A caller may use the addresses that are kept, and goes to a host and port: its own or those of
the proxy. -/
def Shares (t : Traffic) (j : Nat) (e : Endpoint) : Prop :=
  ∃ o r route, t.asked[j]? = some (o, r) ∧ o.cacheAddresses = true ∧
    t.broker.routing.route o r = .ok route ∧ Acquire.endpoint route = e

variable {t u : Traffic} {i j : Nat} {c : Caller} {s : Stroke} {list : List Stroke} {e : Endpoint}
  {a : Address}

/-! ### What is kept -/

theorem address?_act (hc : t.callers[i]? = some c) (deed : Deed) (e : Endpoint) :
    (t.act i c deed).broker.pool.address? e = t.broker.pool.address? e ∨
      ∃ a, t.Learns (.action (.caller i deed)) e a ∧
        (t.act i c deed).broker.pool.address? e = some a := by
  rw [act.eq_def]
  split
  case h_1 route hstage =>
    have haddresses : (t.take i c route).broker.pool.addresses = t.broker.pool.addresses :=
      (t.broker.pool.checkout_takesOut t.broker.network.clock route.destination).addresses
    exact .inl (congrArg (List.lookup e) haddresses)
  case h_4 result route hstage =>
    cases result with
    | error error => exact .inl rfl
    | ok address =>
      cases hcaches : c.options.cacheAddresses with
      | false =>
        left
        rw [answer, hcaches]
        rfl
      | true =>
        have hpool : (t.answer i c route (.ok address)).broker.pool =
            t.broker.pool.remember (Acquire.endpoint route) address := by
          rw [answer, hcaches]
          rfl
        rw [hpool, Pool.address?_remember]
        by_cases he : e = Acquire.endpoint route
        · rw [if_pos he]
          exact .inr ⟨address, ⟨i, c, rfl, hc, hcaches, by rw [hstage, he]; rfl⟩, rfl⟩
        · rw [if_neg he]
          exact .inl rfl
  case h_6 ticket attempt hstage =>
    rw [connect]
    obtain ⟨network, -, ⟨error, heq⟩ | ⟨-, heq⟩⟩ := t.broker.connect_cases attempt
    all_goals
      rw [heq]
      exact .inl rfl
  case h_12 held hstage =>
    have haddresses : (t.drop i c held).broker.pool.addresses = t.broker.pool.addresses :=
      Pool.addresses_checkin _ _ _ _
    exact .inl (congrArg (List.lookup e) haddresses)
  all_goals exact .inl rfl

/-- **What is kept of a host and port** after a stroke is what was kept before, unless all has been
forgotten or a caller has just heard another address that it keeps. -/
theorem address?_stroke (hs : t.Sound) (s : Stroke) (e : Endpoint) :
    (t.stroke s).broker.pool.address? e = t.broker.pool.address? e ∨
      (s.forgets = true ∧ (t.stroke s).broker.pool.address? e = none) ∨
      ∃ a, t.Learns s e a ∧ (t.stroke s).broker.pool.address? e = some a := by
  obtain ⟨action, rfl⟩ | heq | ⟨i, c, h, x, q, -, -, -, -, -, heq⟩ := stroke_cases hs s
  · cases action with
    | ask options request =>
      obtain ⟨d, network, -, hask⟩ := t.ask_cases options request
      left
      rw [stroke, step, hask]
    | caller i deed =>
      rw [stroke, step]
      split
      · next c hc => exact (address?_act hc deed e).imp_right .inr
      · exact .inl rfl
    | forget => exact .inr (.inl ⟨rfl, rfl⟩)
    | reset => exact .inr (.inl ⟨rfl, rfl⟩)
    | world network =>
      left
      rw [stroke, step]
      split <;> rfl
  · left
    rw [heq]
  · left
    rw [heq]
    rfl

theorem address?_of_learns (h : t.Learns s e a) :
    (t.stroke s).broker.pool.address? e = some a := by
  obtain ⟨i, c, rfl, hc, hcaches, hawaited⟩ := h
  cases hstage : c.stage with
  | resolving route =>
    rw [hstage] at hawaited
    cases hawaited
    have hpool : (t.stroke (.action (.caller i (.answer (.ok a))))).broker.pool =
        t.broker.pool.remember (Acquire.endpoint route) a := by
      simp only [stroke, step, hc, act, hstage, answer, hcaches]
      rfl
    rw [hpool, Pool.address?_remember, if_pos rfl]
  | _ =>
    rw [hstage] at hawaited
    cases hawaited

/-- **What is kept stays**, if another may take its place, until it is forgotten. -/
theorem exists_address?_strokes (hs : t.Sound) (h : ∃ a, t.broker.pool.address? e = some a)
    (hkept : ∀ s ∈ list, s.forgets = false) :
    ∃ a, (t.strokes list).broker.pool.address? e = some a := by
  induction list generalizing t with
  | nil => exact h
  | cons s rest ih =>
    obtain ⟨hfirst, hrest⟩ := List.forall_mem_cons.1 hkept
    refine ih (sound_stroke hs s) ?_ hrest
    obtain hsame | ⟨hforgets, -⟩ | ⟨a, -, hnew⟩ := address?_stroke hs s e
    · rw [hsame]
      exact h
    · rw [hfirst] at hforgets
      cases hforgets
    · exact ⟨a, hnew⟩

/-! ### Who asks -/

theorem stroke_locate (hc : t.callers[i]? = some c) {route : Route}
    (hstage : c.stage = .lacking route) :
    t.stroke (.action (.caller i .locate)) = t.locate i c route := by
  simp only [stroke, step, hc, act, hstage]

/-- **Who asks the resolver** has found no idle link, and nothing kept if it may look there. -/
theorem lacks_of_asked (h : t.inquiry? s = some (.asked i e)) :
    ∃ c route, t.callers[i]? = some c ∧ c.stage = .lacking route ∧ Acquire.endpoint route = e ∧
      (c.options.cacheAddresses = true → t.broker.pool.address? e = none) := by
  rw [inquiry?.eq_def] at h
  split at h
  · next j =>
    split at h
    · next hnone =>
      obtain ⟨f, hf, heq⟩ := Option.map_eq_some_iff.1 h
      cases heq
      cases hc : t.callers[i]? with
      | none =>
        rw [stroke_of_none rfl hc, hnone] at hf
        cases hf
      | some c =>
        cases hstage : c.stage with
        | lacking route =>
          rw [stroke_locate hc hstage, locate, awaited?_eq (getElem?_turn hc _)] at hf
          refine ⟨c, route, rfl, hstage, ?_⟩
          by_cases hcaches : c.options.cacheAddresses = true
          · rw [if_pos hcaches] at hf
            cases hkept : t.broker.pool.address? (Acquire.endpoint route) with
            | none =>
              rw [hkept] at hf
              cases hf
              exact ⟨rfl, fun _ => hkept⟩
            | some address =>
              rw [hkept] at hf
              cases hf
          · rw [if_neg hcaches] at hf
            cases hf
            exact ⟨rfl, fun h => absurd h hcaches⟩
        | _ =>
          have hnothing : t.stroke (.action (.caller i .locate)) = t := by
            simp only [stroke, step, hc, act, hstage]
          rw [hnothing, hnone] at hf
          cases hf
    · cases h
  · obtain ⟨_, -, heq⟩ := Option.map_eq_some_iff.1 h
    cases heq
  · cases h

/-- What is asked in a run is asked by some stroke of it. -/
theorem mem_inquiries {q : Inquiry} (h : q ∈ t.inquiries list) :
    ∃ before s after, list = before ++ s :: after ∧ (t.strokes before).inquiry? s = some q := by
  induction list generalizing t with
  | nil => cases h
  | cons s rest ih =>
    rw [inquiries] at h
    rcases List.mem_append.1 h with hfirst | hrest
    · exact ⟨[], s, rest, rfl, Option.mem_toList.1 hfirst⟩
    · obtain ⟨before, u, after, heq, hu⟩ := ih hrest
      exact ⟨s :: before, u, after, by rw [heq]; rfl, hu⟩

/-- Who asks is there. -/
theorem lt_of_asked (hs : t.Sound) (h : .asked i e ∈ t.inquiries list) :
    i < (t.strokes list).callers.length := by
  obtain ⟨before, s, after, rfl, hs'⟩ := mem_inquiries h
  obtain ⟨c, route, hc, -⟩ := lacks_of_asked hs'
  have hlater := (later_strokes (sound_strokes hs before) (s :: after)).asked.length_le
  rw [asked, asked, List.length_map, List.length_map] at hlater
  rw [strokes_append]
  exact Nat.lt_of_lt_of_le (List.getElem?_eq_some_iff.1 hc).1 hlater

/-- A caller that shares what is kept and has found no idle link looks for that host and port. -/
theorem Shares.endpoint_eq (h : u.Shares j e) (hs : t.Sound) (hlater : t.Later u)
    (hc : t.callers[j]? = some c) {route : Route} (hstage : c.stage = .lacking route) :
    c.options.cacheAddresses = true ∧ Acquire.endpoint route = e := by
  obtain ⟨o, r, found, hasked, hcaches, hroute, rfl⟩ := h
  have hgoes : t.broker.routing.route c.options c.request = .ok route := hs.fits_stage hc hstage
  have hown : t.asked[j]? = some (c.options, c.request) := by
    rw [asked, List.getElem?_map, hc]
    rfl
  obtain ⟨more, hmore⟩ := hlater.asked
  have hlt := (List.getElem?_eq_some_iff.1 hown).1
  rw [← hmore, List.getElem?_append_left hlt, hown] at hasked
  cases hasked
  rw [hlater.routing, hgoes] at hroute
  cases hroute
  exact ⟨hcaches, rfl⟩

/-- **While something is kept, who may look there does not ask.** -/
theorem not_asked_of_kept (hs : t.Sound) (h : ∃ a, t.broker.pool.address? e = some a)
    (hkept : ∀ s ∈ list, s.forgets = false) (hj : (t.strokes list).Shares j e) (f : Endpoint) :
    .asked j f ∉ t.inquiries list := by
  intro hasked
  obtain ⟨before, s, after, rfl, hs'⟩ := mem_inquiries hasked
  have hv := sound_strokes hs before
  obtain ⟨c, route, hc, hstage, rfl, hnone⟩ := lacks_of_asked hs'
  rw [strokes_append] at hj
  obtain ⟨hcaches, rfl⟩ := hj.endpoint_eq hv (later_strokes hv _) hc hstage
  obtain ⟨a, ha⟩ := exists_address?_strokes hs h fun s hmem => hkept s (List.mem_append_left _ hmem)
  rw [hnone hcaches] at ha
  cases ha

/-- Who must not look at what is kept asks, once no idle link is left. -/
theorem asked_of_lacking (hc : t.callers[i]? = some c) {route : Route}
    (hstage : c.stage = .lacking route) (hcaches : c.options.cacheAddresses = false) :
    t.inquiry? (.action (.caller i .locate)) = some (.asked i (Acquire.endpoint route)) := by
  have hnone : t.awaited? i = none := by
    rw [awaited?_eq hc, hstage]
    rfl
  have hafter : (t.stroke (.action (.caller i .locate))).awaited? i =
      some (Acquire.endpoint route) := by
    rw [stroke_locate hc hstage, locate, awaited?_eq (getElem?_turn hc _), hcaches]
    rfl
  rw [inquiry?, hnone, hafter]
  rfl

/-- **What is kept spares the resolver.**  In any run:

* once a caller that keeps what it hears has heard the address of a host and port, one is kept until
  the addresses are forgotten, and nobody asks who may look there and goes to that host and port; who
  comes after that never asks;
* an address is kept only because a caller that keeps what it hears has heard it;
* who must not look at what is kept asks once no idle link is left, and has asked and heard for
  every connect and every new link. -/
theorem strokes_cached (routing : Routing) (maxIdlePerHost idleTimeout : Nat) (network : Network)
    (list : List Stroke) :
    let first := start routing maxIdlePerHost idleTimeout network
    let t := first.strokes list
    (∀ before s after e a j, list = before ++ s :: after →
      (first.strokes before).Learns s e a → (∀ u ∈ after, u.forgets = false) → t.Shares j e →
      (∃ b, t.broker.pool.address? e = some b) ∧
      (∀ f, .asked j f ∉ (first.strokes (before ++ [s])).inquiries after) ∧
      ((first.strokes before).callers.length ≤ j → ∀ f, .asked j f ∉ first.inquiries list)) ∧
    (∀ s e a, (t.stroke s).broker.pool.address? e = some a →
      t.broker.pool.address? e = some a ∨ t.Learns s e a) ∧
    (∀ j c, t.callers[j]? = some c → c.options.cacheAddresses = false →
      (∀ route, c.stage = .lacking route →
        t.inquiry? (.action (.caller j .locate)) = some (.asked j (Acquire.endpoint route))) ∧
      (∀ e a, c.stage.aim? = some (e, a) →
        [.asked j e, .heard j e a] <+ first.inquiries list)) := by
  intro first t
  have hfirst : first.Sound := sound_start routing maxIdlePerHost idleTimeout network
  refine ⟨?_, fun s e a h => ?_, fun j c hc hcaches => ⟨fun route hstage => ?_, fun e a haim => ?_⟩⟩
  · intro before s after e a j hlist hlearns hkept hshares
    have hbefore := sound_strokes hfirst before
    have hnow : first.strokes (before ++ [s]) = (first.strokes before).stroke s :=
      strokes_concat first before s
    have hend : t = ((first.strokes before).stroke s).strokes after := by
      rw [← strokes_cons, ← strokes_append, ← hlist]
    have hnew : ∃ b, ((first.strokes before).stroke s).broker.pool.address? e = some b :=
      ⟨a, address?_of_learns hlearns⟩
    have hsilent (f : Endpoint) :
        .asked j f ∉ (first.strokes (before ++ [s])).inquiries after := by
      rw [hnow]
      exact not_asked_of_kept (sound_stroke hbefore s) hnew hkept (hend ▸ hshares) f
    refine ⟨?_, hsilent, fun hlater f hasked => ?_⟩
    · rw [hend]
      exact exists_address?_strokes (sound_stroke hbefore s) hnew hkept
    rw [hlist, inquiries_append, inquiries, ← hnow] at hasked
    rcases List.mem_append.1 hasked with hearly | hrest
    · exact Nat.not_lt.2 hlater (lt_of_asked hfirst hearly)
    rcases List.mem_append.1 hrest with hheard | hafter
    · obtain ⟨i, c, rfl, -, -, -⟩ := hlearns
      obtain ⟨_, -, heq⟩ := Option.map_eq_some_iff.1 (Option.mem_toList.1 hheard)
      cases heq
    · exact hsilent f hafter
  · obtain hsame | ⟨-, hnone⟩ | ⟨b, hlearns, hnew⟩ :=
      address?_stroke (sound_strokes hfirst list) s e
    · exact .inl (hsame ▸ h)
    · rw [hnone] at h
      cases h
    · rw [hnew] at h
      cases h
      exact .inr hlearns
  · exact asked_of_lacking hc hstage hcaches
  · have hle : first.callers.length ≤ j := Nat.zero_le _
    obtain (hasked | ⟨hawaited, -⟩) | ⟨hshares, -⟩ :=
      (known_strokes hfirst rfl list).aims j c hle hc e a haim
    · exact hasked
    · cases hawaited
    · rw [hcaches] at hshares
      cases hshares

/-- Someone has got a link to the page, and someone else comes who shares the address. -/
def sharedVisit : List Stroke := (visit 0 caching page ++ seek 1).map .action

/-- The second one has the address, and the resolver was asked by the first one only. -/
theorem strokes_cached_page :
    (quiet.strokes sharedVisit).callers[1]? =
        some ⟨caching, { url := page }, .located pageRoute (.loopback 3128)⟩ ∧
      (∀ f, .asked 1 f ∉ quiet.inquiries sharedVisit) ∧
      .asked 0 pageEndpoint ∈ quiet.inquiries sharedVisit := by
  have hlearns : (quiet.strokes (sharedVisit.take 3)).Learns
      (.action (.caller 0 (.answer (.ok (.loopback 3128))))) pageEndpoint (.loopback 3128) :=
    ⟨0, ⟨caching, { url := page }, .resolving pageRoute⟩, rfl, by decide, rfl, rfl⟩
  have hshares : (quiet.strokes sharedVisit).Shares 1 pageEndpoint :=
    ⟨caching, { url := page }, pageRoute, by decide, rfl, by decide, rfl⟩
  obtain ⟨-, -, hnever⟩ := (strokes_cached {} 8 90000 { dials := [.opens { reads := [.hang] }] }
    sharedVisit).1 (sharedVisit.take 3) _ (sharedVisit.drop 4) pageEndpoint (.loopback 3128) 1 rfl
    hlearns (by decide) hshares
  exact ⟨by decide, hnever (by decide), by decide⟩

end Traffic

end HttpExchange
