import HttpExchange.Proofs.Link.Moves
import HttpExchange.Proofs.Traffic.Custody

/-!
# Callers that take turns within their exchanges

In a run of `Traffic` an exchange goes on to its first wait with nobody between.  A `Stroke` is
finer: it is an action, or the beginning of an exchange without anything written yet, or one move of
it.  So everybody else may act, and the exchange may be given up, before and after each write, the
flush and each read.  A list of strokes is a run again (`Traffic.strokes`).

What a stroke does to links is said once:

* `progresses` — how far it gets an exchange (`Progresses`);
* `passes_stroke` — how the one who makes it gets from stage to stage (`Passes`); the others stay
  where they are (`callers_stroke_of_ne`);
* `idleTo_stroke`, `idle_stroke` — a link gets on a shelf only by being let go of, as the newest
  there;
* `sound_strokes` — what is so after every run is so after every run of strokes;
* `not_mem_places_strokes` — a link that is in no place never comes back.
-/

namespace HttpExchange

/-- An action, or a part of one. -/
inductive Stroke
  | action (action : Action)
  /-- The caller with that number begins to send a request. -/
  | begin (number : Nat) (request : Outgoing)
  /-- It does one operation on the stream. -/
  | move (number : Nat)

/-- The caller whose action it is. -/
def Action.number? : Action → Option Nat
  | caller i _ => some i
  | _ => none

/-- The caller whose stroke it is. -/
def Stroke.number? : Stroke → Option Nat
  | action a => a.number?
  | begin i _ => some i
  | move i => some i

namespace Broker

/-- Begins to send a request on a link. -/
def begun (b : Broker) (h : Handle) (request : Outgoing) : Exchange.Motion :=
  h.link.begun b.network.now request (b.network.stream h.link.id)

/-- Does one operation of an exchange. -/
def move (b : Broker) (h : Handle) (x : Exchange) : Exchange.Motion :=
  x.move b.network.now h.link (b.network.stream h.link.id)

end Broker

namespace Traffic

/-- How far a stroke gets the exchange of a caller that holds a link. -/
def progress? (t : Traffic) (h : Handle) (x : Option Exchange) : Stroke → Option Exchange.Progress
  | .action (.caller _ (.send request)) => match x with
    | none => some (h.link.send false t.broker.network.now request
        (t.broker.network.stream h.link.id))
    | some _ => none
  | .action (.caller _ .resume) =>
    x.map fun x => x.run false t.broker.network.now h.link (t.broker.network.stream h.link.id)
  | .begin _ request => match x with
    | none => some (t.broker.begun h request).progress
    | some _ => none
  | .move _ => x.map fun x => (t.broker.move h x).progress
  | _ => none

/-- Stores what a motion has left. -/
def touch (t : Traffic) (i : Nat) (c : Caller) (h : Handle) (p : Exchange.Progress) : Traffic :=
  t.settle i c (p.outcome, { h with link := p.link }, t.broker.settle p)

/-- What a stroke makes of things. -/
def stroke (t : Traffic) : Stroke → Traffic
  | .action action => t.step action
  | .begin i request => match t.callers[i]? with
    | some c => match c.stage with
      | .holding h none => t.touch i c h (t.broker.begun h request).progress
      | _ => t
    | none => t
  | .move i => match t.callers[i]? with
    | some c => match c.stage with
      | .holding h (some x) => t.touch i c h (t.broker.move h x).progress
      | _ => t
    | none => t

/-- What a list of strokes makes of things. -/
def strokes (t : Traffic) (list : List Stroke) : Traffic := list.foldl stroke t

@[simp]
theorem strokes_nil (t : Traffic) : t.strokes [] = t := rfl

@[simp]
theorem strokes_cons (t : Traffic) (s : Stroke) (rest : List Stroke) :
    t.strokes (s :: rest) = (t.stroke s).strokes rest := rfl

theorem strokes_append (t : Traffic) (before after : List Stroke) :
    t.strokes (before ++ after) = (t.strokes before).strokes after := List.foldl_append

/-- Strokes lead from one to the other. -/
def Reaches (t u : Traffic) : Prop := ∃ list, t.strokes list = u

theorem Reaches.refl (t : Traffic) : t.Reaches t := ⟨[], rfl⟩

theorem Reaches.one (t : Traffic) (s : Stroke) : t.Reaches (t.stroke s) := ⟨[s], rfl⟩

theorem Reaches.trans {t u v : Traffic} (h : t.Reaches u) (g : u.Reaches v) : t.Reaches v := by
  obtain ⟨first, rfl⟩ := h
  obtain ⟨more, rfl⟩ := g
  exact ⟨first ++ more, strokes_append t first more⟩

theorem strokes_actions (t : Traffic) (actions : List Action) :
    t.strokes (actions.map .action) = t.run actions := List.foldl_map

variable {t : Traffic} {i j : Nat} {c d : Caller}

/-! ### How far an exchange gets -/

/-- The strokes that get the exchange of a caller further, and how far. -/
inductive Progresses (t : Traffic) (h : Handle) :
    Option Exchange → Stroke → Exchange.Progress → Prop
  | sent (i : Nat) (request : Outgoing) :
      Progresses t h none (.action (.caller i (.send request)))
        (h.link.send false t.broker.network.now request (t.broker.network.stream h.link.id))
  | resumed (i : Nat) (x : Exchange) :
      Progresses t h (some x) (.action (.caller i .resume))
        (x.run false t.broker.network.now h.link (t.broker.network.stream h.link.id))
  | began (i : Nat) (request : Outgoing) :
      Progresses t h none (.begin i request) (t.broker.begun h request).progress
  | moved (i : Nat) (x : Exchange) :
      Progresses t h (some x) (.move i) (t.broker.move h x).progress

theorem progresses {h : Handle} {x : Option Exchange} {s : Stroke} {p : Exchange.Progress}
    (hp : t.progress? h x s = some p) : t.Progresses h x s p := by
  rw [progress?.eq_def] at hp
  split at hp
  · cases x with
    | none =>
      cases hp
      exact .sent _ _
    | some x => cases hp
  · cases x with
    | none => cases hp
    | some x =>
      cases hp
      exact .resumed _ x
  · cases x with
    | none =>
      cases hp
      exact .began _ _
    | some x => cases hp
  · cases x with
    | none => cases hp
    | some x =>
      cases hp
      exact .moved _ x
  · cases hp

/-! ### What is so after every stroke -/

section Preserved

theorem stroke_begin (hc : t.callers[i]? = some c) {h : Handle} (hstage : c.stage = .holding h none)
    (request : Outgoing) :
    t.stroke (.begin i request) = t.touch i c h (t.broker.begun h request).progress := by
  simp only [stroke, hc, hstage]

theorem stroke_move (hc : t.callers[i]? = some c) {h : Handle} {x : Exchange}
    (hstage : c.stage = .holding h (some x)) :
    t.stroke (.move i) = t.touch i c h (t.broker.move h x).progress := by
  simp only [stroke, hc, hstage]

theorem stroke_drop (hc : t.callers[i]? = some c) {h : Handle}
    (hstage : c.stage = .holding h none) :
    t.stroke (.action (.caller i .drop)) = t.drop i c h := by
  simp only [stroke, step, hc, act, hstage]

theorem stroke_abandon (hc : t.callers[i]? = some c) {h : Handle} {x : Exchange}
    (hstage : c.stage = .holding h (some x)) :
    t.stroke (.action (.caller i .abandon)) = t.turn i c (.holding h none) := by
  simp only [stroke, step, hc, act, hstage]

/-- A stroke that is no action is nothing, or a touch that leaves what an exchange leaves. -/
theorem stroke_cases (hs : t.Sound) (s : Stroke) :
    (∃ action, s = .action action) ∨ t.stroke s = t ∨
      ∃ i c h x p, s.number? = some i ∧ t.callers[i]? = some c ∧ c.stage = .holding h x ∧
        t.progress? h x s = some p ∧ Exchange.Leaves h.link p ∧ t.stroke s = t.touch i c h p := by
  cases s with
  | action action => exact .inl ⟨action, rfl⟩
  | begin i request =>
    right
    rw [stroke]
    split
    · next c hc =>
      split
      · next h hstage =>
        exact .inr ⟨i, c, h, none, _, rfl, hc, hstage, rfl, Link.begun_leaves _ _ _ _, rfl⟩
      · exact .inl rfl
    · exact .inl rfl
  | move i =>
    right
    rw [stroke]
    split
    · next c hc =>
      split
      · next h x hstage =>
        obtain ⟨_, -, -, hinUse⟩ := hs.fits_stage hc hstage
        exact .inr ⟨i, c, h, some x, _, rfl, hc, hstage, rfl,
          Exchange.move_leaves _ (hinUse rfl) _ _, rfl⟩
      · exact .inl rfl
    · exact .inl rfl

/-- The stages at which a caller comes. -/
inductive Opening : Stage → Prop
  | choosing (route : Route) : Opening (.choosing route)
  | refused (error : CallError) : Opening (.refused error)

/-- Somebody who comes has no link. -/
theorem Opening.handle?_eq {stage : Stage} (h : Opening stage) : stage.handle? = none := by
  cases h <;> rfl

theorem ask_cases (t : Traffic) (options : ClientOptions) (request : Outgoing) :
    ∃ d network, Opening d.stage ∧ t.ask options request =
      { t with broker := { t.broker with network }, callers := t.callers ++ [d] } := by
  rw [ask]
  split
  · exact ⟨_, t.broker.network, .refused _, rfl⟩
  · exact ⟨_, _, .choosing _, rfl⟩

/-- **What each thing brings about that a stroke may do**, every stroke does. -/
@[elab_as_elim]
theorem of_stroke {motive : Traffic → Prop} (hs : t.Sound) (s : Stroke) (stays : motive t)
    (enters : ∀ d network, Opening d.stage →
      motive { t with broker := { t.broker with network }, callers := t.callers ++ [d] })
    (acts : ∀ i c deed, s = .action (.caller i deed) → t.callers[i]? = some c →
      motive (t.act i c deed))
    (forgets : motive { t with broker := t.broker.forget })
    (resets : motive { t with broker := t.broker.reset })
    (goesOn : ∀ network, motive { t with broker := { t.broker with network } })
    (touches : ∀ i c h x q, s.number? = some i → t.callers[i]? = some c →
      c.stage = .holding h x → t.progress? h x s = some q → Exchange.Leaves h.link q →
        motive (t.touch i c h q)) : motive (t.stroke s) := by
  obtain ⟨action, rfl⟩ | heq | ⟨i, c, h, x, q, hi, hc, hstage, hq, hleaves, heq⟩ := stroke_cases hs s
  · cases action with
    | ask options request =>
      obtain ⟨d, network, hd, hask⟩ := t.ask_cases options request
      rw [stroke, step, hask]
      exact enters d network hd
    | caller i deed =>
      rw [stroke, step]
      split
      · next c hc => exact acts i c deed rfl hc
      · exact stays
    | forget => exact forgets
    | reset => exact resets
    | world network =>
      rw [stroke, step]
      split
      · exact goesOn network
      · exact stays
  · rw [heq]
    exact stays
  · rw [heq]
    exact touches i c h x q hi hc hstage hq hleaves

theorem sound_stroke (hs : t.Sound) (s : Stroke) : (t.stroke s).Sound := by
  obtain ⟨action, rfl⟩ | heq | ⟨i, c, h, x, p, -, hc, hstage, -, hleaves, heq⟩ := stroke_cases hs s
  · exact sound_step hs action
  · rw [heq]
    exact hs
  · rw [heq]
    exact sound_settle hs hc hstage hleaves

/-- **Every run of strokes preserves it.** -/
theorem sound_strokes (hs : t.Sound) (list : List Stroke) : (t.strokes list).Sound := by
  induction list generalizing t with
  | nil => exact hs
  | cons s rest ih => exact ih (sound_stroke hs s)

theorem later_stroke (hs : t.Sound) (s : Stroke) : t.Later (t.stroke s) := by
  obtain ⟨action, rfl⟩ | heq | ⟨i, c, h, x, p, -, hc, -, -, -, heq⟩ := stroke_cases hs s
  · exact later_step t action
  · rw [heq]
    exact Later.refl t
  · rw [heq]
    exact later_settle hc _ p

theorem later_strokes (hs : t.Sound) (list : List Stroke) : t.Later (t.strokes list) := by
  induction list generalizing t with
  | nil => exact Later.refl t
  | cons s rest ih => exact (later_stroke hs s).trans (ih (sound_stroke hs s))

end Preserved

/-! ### From stage to stage -/

/-- From which stage to which a stroke may take the caller whose it is. -/
inductive Passes (t : Traffic) (s : Stroke) : Stage → Stage → Prop
  | stays (stage : Stage) : Passes t s stage stage
  | took {route : Route} {link : Link} {generation : Nat} (idle : link ∈ t.broker.pool.idle) :
      Passes t s (.choosing route) (.probing route ⟨link, generation, true⟩)
  | looked {route : Route} {h : Handle} : Passes t s (.probing route h) (.holding h none)
  | connected {ticket : Nat} {attempt : Attempt} {h : Handle}
      (number : h.link.id = t.broker.network.streams.size) (fresh : h.link.reusable = true)
      (first : h.reused = false) :
      Passes t s (.connecting ticket attempt) (.holding h none)
  | touched {h : Handle} {x : Option Exchange} {p : Exchange.Progress}
      (progress : t.progress? h x s = some p) (leaves : Exchange.Leaves h.link p) :
      Passes t s (.holding h x) (.holding { h with link := p.link } p.outcome.exchange?)
  | abandoned {h : Handle} {x : Exchange} : Passes t s (.holding h (some x)) (.holding h none)
  /-- The link was let go of or shut down. -/
  | parted {h : Handle} : Passes t s (.holding h none) .gone
  | without {before after : Stage} (empty : ∀ h x, before ≠ .holding h x)
      (none : after.handle? = none) : Passes t s before after

theorem getElem?_turn (hc : t.callers[i]? = some c) (stage : Stage) :
    (t.turn i c stage).callers[i]? = some { c with stage } := by
  obtain ⟨hi, -⟩ := List.getElem?_eq_some_iff.1 hc
  exact List.getElem?_set_self hi

theorem getElem?_turn_ne (hne : i ≠ j) (stage : Stage) :
    (t.turn i c stage).callers[j]? = t.callers[j]? :=
  List.getElem?_set_ne hne

theorem passes_act (hs : t.Sound) (hc : t.callers[i]? = some c) (deed : Deed) :
    ∃ stage, (t.act i c deed).callers[i]? = some { c with stage } ∧
      t.Passes (.action (.caller i deed)) c.stage stage := by
  rw [act.eq_def]
  split
  · next route hstage =>
    rw [take, hstage]
    have htakes := t.broker.pool.checkout_takesOut t.broker.network.clock route.destination
    generalize t.broker.pool.checkout t.broker.network.clock route.destination = result at htakes ⊢
    obtain ⟨_ | link, pool⟩ := result
    · exact ⟨_, getElem?_turn hc _, .without (by simp) rfl⟩
    · exact ⟨_, getElem?_turn hc _,
        .took (Pool.mem_idle_iff.2 ⟨_, htakes.mem_idleTo_of_found rfl⟩)⟩
  · next route h hstage =>
    rw [probe, hstage]
    have halive := @Network.probe_alive t.broker.network h.link
    generalize t.broker.network.probe h.link = result at halive ⊢
    obtain ⟨_ | _, link, network⟩ := result
    · obtain rfl : link = h.link := halive rfl
      exact ⟨_, getElem?_turn hc _, .looked⟩
    · exact ⟨_, getElem?_turn hc _, .without (by simp) rfl⟩
  · next route hstage =>
    rw [locate, hstage]
    generalize (if c.options.cacheAddresses = true then _ else _ : Option Address) = found
    refine ⟨_, getElem?_turn hc _, .without (by simp) ?_⟩
    cases found <;> rfl
  · next result route hstage =>
    rw [hstage]
    obtain ⟨error, heq⟩ | ⟨address, pool, -, -, -, heq⟩ := t.answer_cases i c route result
    · rw [heq]
      exact ⟨_, getElem?_turn hc _, .without (by simp) rfl⟩
    · rw [heq]
      exact ⟨_, getElem?_turn hc _, .without (by simp) rfl⟩
  · next route address hstage =>
    rw [hstage]
    exact ⟨_, getElem?_turn hc _, .without (by simp) rfl⟩
  · next ticket attempt hstage =>
    rw [connect, hstage]
    obtain ⟨network, -, ⟨error, heq⟩ | ⟨-, heq⟩⟩ := t.broker.connect_cases attempt
    · rw [heq]
      exact ⟨_, getElem?_turn hc _, .without (by simp) rfl⟩
    · rw [heq]
      exact ⟨_, getElem?_turn hc _, .connected rfl rfl rfl⟩
  · next hstage =>
    rw [hstage]
    exact ⟨_, getElem?_turn hc _, .without (by simp) rfl⟩
  · next hstage =>
    rw [hstage]
    exact ⟨_, getElem?_turn hc _, .without (by simp) rfl⟩
  · next request h hstage =>
    rw [hstage]
    exact ⟨_, getElem?_turn hc _, .touched rfl (Link.send_leaves _ _ _ _ _)⟩
  · next h x hstage =>
    obtain ⟨_, -, -, hinUse⟩ := hs.fits_stage hc hstage
    rw [hstage]
    exact ⟨_, getElem?_turn hc _, .touched rfl (Exchange.run_leaves _ _ (hinUse rfl) _ _)⟩
  · next h x hstage =>
    rw [hstage]
    exact ⟨_, getElem?_turn hc _, .abandoned⟩
  · next h hstage =>
    rw [hstage]
    exact ⟨_, getElem?_turn hc _, .parted⟩
  · next h hstage =>
    rw [hstage]
    exact ⟨_, getElem?_turn hc _, .parted⟩
  · exact ⟨c.stage, hc, .stays _⟩

/-- **How the one whose stroke it is gets on.** -/
theorem passes_stroke (hs : t.Sound) {s : Stroke} (hnumber : s.number? = some i)
    (hc : t.callers[i]? = some c) :
    ∃ stage, (t.stroke s).callers[i]? = some { c with stage } ∧ t.Passes s c.stage stage := by
  obtain ⟨action, rfl⟩ | heq | ⟨j, d, h, x, p, hj, hd, hstage, hp, hleaves, heq⟩ :=
    stroke_cases hs s
  · cases action with
    | caller j deed =>
      cases hnumber
      rw [stroke, step, hc]
      exact passes_act hs hc deed
    | _ => cases hnumber
  · rw [heq]
    exact ⟨c.stage, hc, .stays _⟩
  · cases hj.symm.trans hnumber
    cases hd.symm.trans hc
    rw [heq, hstage]
    exact ⟨_, getElem?_turn hc _, .touched hp hleaves⟩

/-! ### Whose stroke it is not -/

/-- The others stay where they are. -/
theorem callers_act_of_ne (deed : Deed) (hne : i ≠ j) :
    (t.act i c deed).callers[j]? = t.callers[j]? := by
  rw [act.eq_def]
  split
  case h_4 result route hstage =>
    obtain ⟨error, heq⟩ | ⟨address, pool, -, -, -, heq⟩ := t.answer_cases i c route result
    all_goals
      rw [heq]
      exact getElem?_turn_ne hne _
  case h_6 ticket attempt hstage =>
    rw [connect]
    obtain ⟨network, -, ⟨error, heq⟩ | ⟨-, heq⟩⟩ := t.broker.connect_cases attempt
    all_goals
      rw [heq]
      exact getElem?_turn_ne hne _
  case h_14 => rfl
  all_goals exact getElem?_turn_ne hne _

theorem callers_enter (t : Traffic) (hc : Opening c.stage) (j : Nat) :
    (t.callers ++ [c])[j]? = t.callers[j]? ∨
      (t.callers[j]? = none ∧ ∀ d, (t.callers ++ [c])[j]? = some d → Opening d.stage) := by
  rcases Nat.lt_or_ge j t.callers.length with hlt | hge
  · exact .inl (List.getElem?_append_left hlt)
  · refine .inr ⟨List.getElem?_eq_none hge, fun d hd => ?_⟩
    rw [List.getElem?_append_right hge] at hd
    rw [List.mem_singleton.1 (List.mem_of_getElem? hd)]
    exact hc

/-- **The others stay where they are**, and who comes is at the beginning. -/
theorem callers_stroke_of_ne (hs : t.Sound) {s : Stroke} (hnumber : s.number? ≠ some j) :
    (t.stroke s).callers[j]? = t.callers[j]? ∨
      (t.callers[j]? = none ∧ ∀ d, (t.stroke s).callers[j]? = some d → Opening d.stage) := by
  have hne {i : Nat} (hi : s.number? = some i) : i ≠ j := fun hij => hnumber (hij ▸ hi)
  refine of_stroke hs s ?stays ?enters ?acts ?forgets ?resets ?goesOn ?touches
  case enters => exact fun d _ hd => t.callers_enter hd j
  case acts =>
    intro i c deed heq _
    have hi : s.number? = some i := by rw [heq]; rfl
    exact .inl (callers_act_of_ne deed (hne hi))
  case touches => exact fun i c h x q hi _ _ _ _ => .inl (getElem?_turn_ne (hne hi) _)
  all_goals
    intros
    exact .inl rfl

/-- A stroke of nobody does nothing. -/
theorem stroke_of_none {s : Stroke} (hnumber : s.number? = some i) (hc : t.callers[i]? = none) :
    t.stroke s = t := by
  cases s with
  | action action =>
    cases action with
    | caller i deed =>
      cases hnumber
      simp only [stroke, step, hc]
    | _ => cases hnumber
  | begin i request =>
    cases hnumber
    simp only [stroke, hc]
  | move i =>
    cases hnumber
    simp only [stroke, hc]

/-- **Whoever is there after a stroke**: one it was not about, one who has come, or the one whose
stroke it was. -/
theorem callers_stroke (hs : t.Sound) (s : Stroke) (hd : (t.stroke s).callers[j]? = some d) :
    t.callers[j]? = some d ∨ Opening d.stage ∨
      (s.number? = some j ∧ ∃ c, t.callers[j]? = some c ∧ t.Passes s c.stage d.stage) := by
  by_cases hnumber : s.number? = some j
  · cases hc : t.callers[j]? with
    | none =>
      rw [stroke_of_none hnumber hc, hc] at hd
      cases hd
    | some c =>
      obtain ⟨stage, hstage, hpasses⟩ := passes_stroke hs hnumber hc
      cases hd.symm.trans hstage
      exact .inr (.inr ⟨hnumber, c, rfl, hpasses⟩)
  · obtain hsame | ⟨-, hnone⟩ := callers_stroke_of_ne hs hnumber
    · exact .inl (hsame ▸ hd)
    · exact .inr (.inl (hnone d hd))

/-! ### Who has asked -/

theorem asked_act (hc : t.callers[i]? = some c) (deed : Deed) :
    (t.act i c deed).asked = t.asked := by
  rw [act.eq_def]
  split
  case h_4 result route hstage =>
    obtain ⟨error, heq⟩ | ⟨address, pool, -, -, -, heq⟩ := t.answer_cases i c route result
    all_goals
      rw [heq]
      exact asked_turn hc _
  case h_6 ticket attempt hstage =>
    rw [connect]
    obtain ⟨network, -, ⟨error, heq⟩ | ⟨-, heq⟩⟩ := t.broker.connect_cases attempt
    all_goals
      rw [heq]
      exact asked_turn hc _
  case h_14 => rfl
  all_goals exact asked_turn hc _

theorem asked_ask (t : Traffic) (options : ClientOptions) (request : Outgoing) :
    (t.ask options request).asked = t.asked ++ [(options, request)] := by
  rw [ask]
  split <;> exact List.map_append

/-- Whose stroke it is has asked before. -/
theorem asked_stroke (t : Traffic) {s : Stroke} (hnumber : s.number? = some i) :
    (t.stroke s).asked = t.asked := by
  cases s with
  | action action =>
    cases action with
    | caller j deed =>
      rw [stroke, step]
      split
      · next hc => exact asked_act hc deed
      · rfl
    | _ => cases hnumber
  | begin j request =>
    rw [stroke]
    repeat' split
    · next hc _ _ _ => exact asked_turn hc _
    · rfl
    · rfl
  | move j =>
    rw [stroke]
    repeat' split
    · next hc _ _ _ _ => exact asked_turn hc _
    · rfl
    · rfl

/-! ### On the shelves -/

/-- From a shelf links are only taken, or one who held a link has let go of it: then it is the newest
there. -/
theorem idleTo_act (deed : Deed) (d : Destination) :
    ((t.act i c deed).broker.pool.idleTo d).Sublist (t.broker.pool.idleTo d) ∨
      ∃ h clock, deed = .drop ∧ c.stage = .holding h none ∧ h.link.reusable = true ∧
        (t.act i c deed).broker.pool.idleTo d =
          { h.link with idleSince := clock } :: t.broker.pool.idleTo d := by
  rw [act.eq_def]
  split
  case h_1 route hstage =>
    have htakes := t.broker.pool.checkout_takesOut t.broker.network.clock route.destination
    exact .inl (htakes.sublist_idleTo d)
  case h_4 result route hstage =>
    obtain ⟨error, heq⟩ | ⟨address, pool, hshelves, -, -, heq⟩ := t.answer_cases i c route result
    · rw [heq]
      exact .inl (.refl _)
    · have hidleTo : pool.idleTo d = t.broker.pool.idleTo d := by
        rw [Pool.idleTo, Pool.idleTo, hshelves]
      rw [heq]
      exact .inl (hidleTo ▸ .refl _)
  case h_6 ticket attempt hstage =>
    rw [connect]
    obtain ⟨network, -, ⟨error, heq⟩ | ⟨-, heq⟩⟩ := t.broker.connect_cases attempt
    all_goals
      rw [heq]
      exact .inl (.refl _)
  case h_12 h hstage =>
    have hpool : (t.drop i c h).broker.pool =
        t.broker.pool.checkin t.broker.network.clock h.generation h.link := rfl
    rw [hpool]
    obtain heq | ⟨hreusable, -, -, heq⟩ :=
      t.broker.pool.checkin_eq_self_or t.broker.network.clock h.generation h.link
    · rw [heq]
      exact .inl (.refl _)
    · rw [heq, Pool.idleTo_shelve]
      split
      · next hd =>
        subst hd
        exact .inr ⟨h, _, rfl, hstage, hreusable, rfl⟩
      · exact .inl (.refl _)
  all_goals exact .inl (.refl _)

/-- A link in a caller's hand is on no shelf. -/
theorem Sound.id_ne_of_idle (hs : t.Sound) (hc : t.callers[i]? = some c) {id : Nat}
    (hid : c.stage.link? = some id) {link : Link} (hlink : link ∈ t.broker.pool.idle) :
    link.id ≠ id := by
  have hheld : id ∈ t.held := List.mem_filterMap.2 ⟨c, List.mem_of_getElem? hc, hid⟩
  exact fun heq => (List.nodup_append.1 hs.exclusive).2.2 _ (List.mem_map_of_mem hlink) _ hheld heq

/-- **A shelf gets shorter, or a link is put on it that someone has let go of.** -/
theorem idleTo_stroke (hs : t.Sound) (s : Stroke) (d : Destination) :
    ((t.stroke s).broker.pool.idleTo d).Sublist (t.broker.pool.idleTo d) ∨
      ∃ i c h clock, s = .action (.caller i .drop) ∧ t.callers[i]? = some c ∧
        c.stage = .holding h none ∧ h.link.reusable = true ∧
        (t.stroke s).broker.pool.idleTo d =
          { h.link with idleSince := clock } :: t.broker.pool.idleTo d := by
  refine of_stroke hs s ?stays ?enters ?acts ?forgets ?resets ?goesOn ?touches
  case acts =>
    intro i c deed heq hc
    obtain hshorter | ⟨h, clock, rfl, hback⟩ := idleTo_act (t := t) (i := i) (c := c) deed d
    · exact .inl hshorter
    · exact .inr ⟨i, c, h, clock, heq, hc, hback⟩
  case resets => exact .inl (List.nil_sublist _)
  -- The shelves are as they were.
  all_goals
    intros
    exact .inl (.refl _)

/-- **A link gets on a shelf only by being let go of.** -/
theorem idle_stroke (hs : t.Sound) (s : Stroke) {link : Link}
    (hlink : link ∈ (t.stroke s).broker.pool.idle) :
    link ∈ t.broker.pool.idle ∨ ∃ i c h clock, s = .action (.caller i .drop) ∧
      t.callers[i]? = some c ∧ c.stage = .holding h none ∧ h.link.reusable = true ∧
        link = { h.link with idleSince := clock } := by
  obtain ⟨d, hd⟩ := Pool.mem_idle_iff.1 hlink
  obtain hshorter | ⟨i, c, h, clock, heq, hc, hstage, hreusable, hback⟩ := idleTo_stroke hs s d
  · exact .inl (Pool.mem_idle_iff.2 ⟨d, hshorter.subset hd⟩)
  · rw [hback] at hd
    rcases List.mem_cons.1 hd with rfl | hd
    · exact .inr ⟨i, c, h, clock, heq, hc, hstage, hreusable, rfl⟩
    · exact .inl (Pool.mem_idle_iff.2 ⟨d, hd⟩)

/-! ### Gone for good -/

theorem mem_places_of_handle (hc : t.callers[i]? = some c) {h : Handle}
    (hh : c.stage.handle? = some h) : h.link.id ∈ t.places :=
  List.mem_append_right _ (List.mem_filterMap.2
    ⟨c, List.mem_of_getElem? hc, by rw [Stage.link?, hh]; rfl⟩)

/-- A link in a caller's hand after a stroke was in some place before, or is new. -/
theorem Passes.mem_places {s : Stroke} {stage : Stage} (h : t.Passes s c.stage stage)
    (hc : t.callers[i]? = some c) {handle : Handle} (hh : stage.handle? = some handle) :
    handle.link.id ∈ t.places ∨ t.broker.network.streams.size ≤ handle.link.id := by
  have hheld : ∀ {held : Handle}, c.stage.handle? = some held → held.link.id ∈ t.places :=
    mem_places_of_handle hc
  generalize c.stage = before at h hheld
  cases h with
  | stays => exact .inl (hheld hh)
  | took hidle =>
    cases hh
    exact .inl (List.mem_append_left _ (List.mem_map_of_mem hidle))
  | looked => exact .inl (hheld hh)
  | connected hnumber =>
    cases hh
    exact .inr (Nat.le_of_eq hnumber.symm)
  | @touched held x p _ hleaves =>
    cases hh
    have hplace : held.link.id ∈ t.places := hheld rfl
    exact .inl (hleaves.id_eq ▸ hplace)
  | abandoned => exact .inl (hheld hh)
  | parted => cases hh
  | without _ hnone => rw [hnone] at hh; cases hh

/-- A link that is in some place after a stroke was in one before, or is new. -/
theorem mem_places_stroke (hs : t.Sound) (s : Stroke) {id : Nat} (hid : id ∈ (t.stroke s).places) :
    id ∈ t.places ∨ t.broker.network.streams.size ≤ id := by
  rcases List.mem_append.1 hid with hidle | hheld
  · obtain ⟨link, hlink, rfl⟩ := List.mem_map.1 hidle
    obtain hold | ⟨i, c, h, clock, -, hc, hstage, -, rfl⟩ := idle_stroke hs s hlink
    · exact .inl (List.mem_append_left _ (List.mem_map_of_mem hold))
    · exact .inl (mem_places_of_handle hc (by rw [hstage]; rfl))
  · obtain ⟨d, hd, hlink⟩ := List.mem_filterMap.1 hheld
    obtain ⟨h, hh, rfl⟩ := Option.map_eq_some_iff.1 hlink
    obtain ⟨j, hj⟩ := List.getElem?_of_mem hd
    obtain hold | hnone | ⟨-, c, hc, hpasses⟩ := callers_stroke hs s hj
    · exact .inl (mem_places_of_handle hold hh)
    · rw [hnone.handle?_eq] at hh
      cases hh
    · exact hpasses.mem_places hc hh

/-- **A link that is in no place never comes back.** -/
theorem not_mem_places_strokes (hs : t.Sound) {id : Nat} (hid : id ∉ t.places)
    (hlt : id < t.broker.network.streams.size) (list : List Stroke) :
    id ∉ (t.strokes list).places := by
  induction list generalizing t with
  | nil => exact hid
  | cons s rest ih =>
    refine ih (sound_stroke hs s) (fun hnow => ?_)
      (Nat.lt_of_lt_of_le hlt (later_stroke hs s).streams)
    exact (mem_places_stroke hs s hnow).elim hid (Nat.not_le_of_lt hlt)

namespace Reaches

variable {w : Traffic} (h : t.Reaches w) (hs : t.Sound)
include h hs

theorem sound : w.Sound := by
  obtain ⟨list, rfl⟩ := h
  exact sound_strokes hs list

theorem lt_streams {id : Nat} (hlt : id < t.broker.network.streams.size) :
    id < w.broker.network.streams.size := by
  obtain ⟨list, rfl⟩ := h
  exact Nat.lt_of_lt_of_le hlt (later_strokes hs list).streams

/-- So what is in some place later has been in one before, unless it is new. -/
theorem mem_places {id : Nat} (hlt : id < t.broker.network.streams.size) (hid : id ∈ w.places) :
    id ∈ t.places := by
  obtain ⟨list, rfl⟩ := h
  exact not_not.1 fun hnot => not_mem_places_strokes hs hnot hlt list hid

end Reaches

/-- **A link that its holder has no more is in no place**, unless it is put on a shelf. -/
theorem not_mem_places_of_left (hs : t.Sound) (hc : t.callers[i]? = some c) {id : Nat}
    (hlink : c.stage.link? = some id) {s : Stroke} (hnumber : s.number? = some i) {stage : Stage}
    (hleft : (t.stroke s).callers[i]? = some { c with stage }) (hnone : stage.link? = none)
    (hunfit : ∀ h, s = .action (.caller i .drop) → c.stage = .holding h none →
      h.link.reusable = false) : id ∉ (t.stroke s).places := by
  intro hid
  rcases List.mem_append.1 hid with hidle | hheld
  · obtain ⟨link, hidle, heq⟩ := List.mem_map.1 hidle
    obtain hold | ⟨j, d, held, _, rfl, hd, hholds, hfit, -⟩ := idle_stroke hs s hidle
    · exact hs.id_ne_of_idle hc hlink hold heq
    · cases hnumber
      cases hd.symm.trans hc
      rw [hunfit held rfl hholds] at hfit
      cases hfit
  · obtain ⟨d, hd, hother⟩ := List.mem_filterMap.1 hheld
    obtain ⟨j, hj⟩ := List.getElem?_of_mem hd
    by_cases hij : i = j
    · subst hij
      cases hj.symm.trans hleft
      cases hnone.symm.trans hother
    · have hne : s.number? ≠ some j := fun h => hij (Option.some.inj (hnumber.symm.trans h))
      obtain hsame | ⟨-, hopening⟩ := callers_stroke_of_ne hs hne
      · exact hs.link_ne hc (hsame ▸ hj) hij hlink hother
      · rw [Stage.link?, (hopening d hj).handle?_eq] at hother
        cases hother

/-- **A link that may not be used again is let go of for good.** -/
theorem not_mem_places_of_gone (hs : t.Sound) (hc : t.callers[i]? = some c) {h : Handle}
    {x : Option Exchange} (hstage : c.stage = .holding h x) (hreusable : h.link.reusable = false)
    {s : Stroke} (hnumber : s.number? = some i)
    (hgone : (t.stroke s).callers[i]? = some { c with stage := .gone }) :
    h.link.id ∉ (t.stroke s).places := by
  refine not_mem_places_of_left hs hc (by rw [hstage]; rfl) hnumber hgone rfl fun held _ hholds => ?_
  cases hholds.symm.trans hstage
  exact hreusable

theorem not_mem_places_drop (hs : t.Sound) (hc : t.callers[i]? = some c) {h : Handle}
    (hstage : c.stage = .holding h none) (hreusable : h.link.reusable = false) :
    h.link.id ∉ (t.stroke (.action (.caller i .drop))).places := by
  refine not_mem_places_of_gone hs hc hstage hreusable rfl ?_
  rw [stroke_drop hc hstage]
  exact getElem?_turn hc _

/-! ### Strokes make up an action -/

theorem sound_touch (hs : t.Sound) (hc : t.callers[i]? = some c) {h : Handle}
    {x : Option Exchange} (hstage : c.stage = .holding h x) {p : Exchange.Progress}
    (hleaves : Exchange.Leaves h.link p) : (t.touch i c h p).Sound :=
  sound_settle hs hc hstage hleaves

theorem callers_touch (hc : t.callers[i]? = some c) (h : Handle) (p : Exchange.Progress) :
    (t.touch i c h p).callers[i]? =
      some { c with stage := .holding { h with link := p.link } p.outcome.exchange? } :=
  getElem?_turn hc _

theorem step_send (hc : t.callers[i]? = some c) {h : Handle} (hstage : c.stage = .holding h none)
    (request : Outgoing) :
    t.step (.caller i (.send request)) = t.touch i c h (h.link.send false t.broker.network.now
      request (t.broker.network.stream h.link.id)) := by
  simp only [step, hc, act, hstage]
  rfl

theorem step_resume (hc : t.callers[i]? = some c) {h : Handle} {x : Exchange}
    (hstage : c.stage = .holding h (some x)) :
    t.step (.caller i .resume) = t.touch i c h
      (x.run false t.broker.network.now h.link (t.broker.network.stream h.link.id)) := by
  simp only [step, hc, act, hstage]
  rfl

/-- Of two touches of one exchange the second is what counts. -/
theorem touch_touch (t : Traffic) (i : Nat) (c : Caller) (h : Handle) {p q : Exchange.Progress}
    (hid : q.link.id = p.link.id) (stage : Stage) :
    (t.touch i c h p).touch i { c with stage } { h with link := p.link } q = t.touch i c h q := by
  have hcallers (a b : Caller) : (t.callers.set i a).set i b = t.callers.set i b :=
    List.set_set _
  simp only [touch, settle, turn, Broker.settle, Network.withStream, hid, hcallers,
    Array.setIfInBounds_setIfInBounds]

section Compose

variable (hs : t.Sound) (hc : t.callers[i]? = some c) {h : Handle}
include hs hc

theorem stream_touch {x : Option Exchange} (hstage : c.stage = .holding h x)
    {p : Exchange.Progress} (hleaves : Exchange.Leaves h.link p) :
    (t.touch i c h p).broker.network.stream p.link.id = p.stream := by
  have hplace : h.link.id ∈ t.places := mem_places_of_handle hc (by rw [hstage]; rfl)
  show (t.broker.network.streams.setIfInBounds p.link.id p.stream).getD p.link.id {} = p.stream
  simp [hleaves.id_eq, hs.numbered _ hplace]

/-- To resume an exchange after a part of it is to go on where that part has stopped. -/
theorem resume_touch {x : Option Exchange} (hstage : c.stage = .holding h x)
    {p : Exchange.Progress} (hleaves : Exchange.Leaves h.link p) {y : Exchange} {wake : Option Nat}
    (houtcome : p.outcome = .waiting y wake) :
    (t.touch i c h p).step (.caller i .resume) =
      t.touch i c h (y.run false p.now p.link p.stream) := by
  have hholds := callers_touch hc h p
  rw [houtcome] at hholds
  rw [step_resume hholds rfl]
  show (t.touch i c h p).touch i _ _ (y.run false p.now p.link _) = _
  rw [stream_touch hs hc hstage hleaves]
  exact t.touch_touch i c h
    (Exchange.run_leaves false p.now (hleaves.inUse y wake houtcome) p.stream y).id_eq _

/-- **Moves with nobody between are what resuming does.** -/
theorem exists_strokes_resume {x : Exchange} (hstage : c.stage = .holding h (some x)) :
    ∃ n, t.strokes (List.replicate n (.move i)) = t.step (.caller i .resume) := by
  induction hleft : x.left (t.broker.network.stream h.link.id)
    using Nat.strong_induction_on generalizing t c h x with
  | _ left ih =>
    obtain ⟨_, -, -, hinUse⟩ := hs.fits_stage hc hstage
    have hleaves : Exchange.Leaves h.link (t.broker.move h x).progress :=
      Exchange.move_leaves _ (hinUse rfl) _ _
    have hmoves := Exchange.run_move t.broker.network.now h.link
      (t.broker.network.stream h.link.id) x
    rw [← Broker.move] at hmoves
    rw [step_resume hc hstage]
    obtain ⟨-, hrun⟩ | ⟨y, houtcome, hlt, hrun⟩ := hmoves
    · refine ⟨1, ?_⟩
      rw [← hrun]
      exact stroke_move hc hstage
    · have hholds := callers_touch hc h (t.broker.move h x).progress
      rw [houtcome] at hholds
      have hless : y.left ((t.touch i c h (t.broker.move h x).progress).broker.network.stream
          (t.broker.move h x).progress.link.id) < left := by
        rw [stream_touch hs hc hstage hleaves]
        exact hleft ▸ hlt
      obtain ⟨n, hn⟩ := ih _ hless (sound_touch hs hc hstage hleaves) hholds rfl rfl
      refine ⟨n + 1, ?_⟩
      rw [List.replicate_succ, strokes_cons, stroke_move hc hstage, hn,
        resume_touch hs hc hstage hleaves houtcome, hrun]

/-- **So is sending**, after the exchange has begun. -/
theorem exists_strokes_send (hstage : c.stage = .holding h none) (request : Outgoing) :
    ∃ n, t.strokes (.begin i request :: List.replicate n (.move i)) =
      t.step (.caller i (.send request)) := by
  have hleaves : Exchange.Leaves h.link (t.broker.begun h request).progress :=
    Link.begun_leaves _ _ _ _
  have hsend := Link.send_begun t.broker.network.now h.link request
    (t.broker.network.stream h.link.id)
  rw [← Broker.begun] at hsend
  simp only [strokes_cons, stroke_begin hc hstage, step_send hc hstage]
  obtain ⟨error, houtcome, heq⟩ | ⟨y, houtcome, heq⟩ := hsend
  · exact ⟨0, by rw [heq]; rfl⟩
  · have hholds := callers_touch hc h (t.broker.begun h request).progress
    rw [houtcome] at hholds
    obtain ⟨n, hn⟩ := exists_strokes_resume (sound_touch hs hc hstage hleaves) hholds rfl
    exact ⟨n, by rw [hn, resume_touch hs hc hstage hleaves houtcome, heq]⟩

end Compose

end Traffic

end HttpExchange
