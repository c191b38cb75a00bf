import Mathlib.Data.List.Induction
import HttpExchange.Proofs.Traffic.Proxy
import HttpExchange.Proofs.Traffic.Strokes

/-!
# Where addresses come from

Callers ask the resolver and hear from it, and in between everybody else may act.  `inquiries` is
what passes between the callers and the resolver in a run of strokes, in its order.  An address
comes from there and from nowhere else: a caller goes on with what it has heard itself, or with what
is kept of the answer to another (`Finds`).

* `finds_stroke` — how a stroke takes a caller on, as far as addresses go;
* `known_strokes` — what is known of addresses after a run (`Known`);
* `strokes_routed` — where the link of a caller goes, and that its address has been asked for.
-/

namespace HttpExchange

open scoped List

/-! ### Asking and hearing -/

/-- What a caller says to the resolver, and what it hears. -/
inductive Inquiry
  | asked (number : Nat) (endpoint : Endpoint)
  | heard (number : Nat) (endpoint : Endpoint) (address : Address)
  deriving DecidableEq, Repr

/-- What a caller waits for the resolver to answer. -/
def Stage.awaited? : Stage → Option Endpoint
  | resolving route => some (Acquire.endpoint route)
  | _ => none

/-- The host and port that a link goes to. -/
def Link.endpoint (link : Link) : Endpoint := (link.destination.host, link.destination.port)

/-- The address of a new link, and what it is the address of. -/
def Handle.aim? (h : Handle) : Option (Endpoint × Address) :=
  if h.reused then none else some (h.link.endpoint, h.link.address)

/-- The address that a caller connects to or has connected to, and what it is the address of. -/
def Stage.aim? : Stage → Option (Endpoint × Address)
  | located route address => some (Acquire.endpoint route, address)
  | connecting _ attempt => some (Acquire.endpoint attempt.route, attempt.address)
  | probing _ h => h.aim?
  | holding h _ => h.aim?
  | _ => none

/-! ### Where a request goes -/

/-- A URL names a destination by its scheme, its host and its port, given or implied. -/
def Url.Names (u : Url) (d : Destination) : Prop :=
  d.scheme = u.scheme ∧ u.hostText? = some d.host ∧ u.effectivePort? = some d.port

namespace Routing

/-- The URL that says where a request goes: that of the proxy, if the request is to be forwarded and
there is one, or its own. -/
def goal (m : Routing) (o : ClientOptions) (r : Outgoing) : Url :=
  if o.useProxy then m.proxy.getD r.url else r.url

end Routing

namespace Traffic

/-- What the caller with a number waits for the resolver to answer. -/
def awaited? (t : Traffic) (i : Nat) : Option Endpoint := t.callers[i]?.bind (·.stage.awaited?)

/-- What passes between a caller and the resolver by one stroke. -/
def inquiry? (t : Traffic) (s : Stroke) : Option Inquiry :=
  match s with
  | .action (.caller i .locate) => match t.awaited? i with
    | none => ((t.stroke s).awaited? i).map (.asked i)
    | some _ => none
  | .action (.caller i (.answer (.ok address))) => (t.awaited? i).map (.heard i · address)
  | _ => none

/-- What passes between callers and the resolver in a run of strokes. -/
def inquiries (t : Traffic) : List Stroke → List Inquiry
  | [] => []
  | s :: rest => (t.inquiry? s).toList ++ (t.stroke s).inquiries rest

theorem inquiries_append (t : Traffic) (first more : List Stroke) :
    t.inquiries (first ++ more) = t.inquiries first ++ (t.strokes first).inquiries more := by
  induction first generalizing t with
  | nil => rfl
  | cons s rest ih =>
    rw [List.cons_append, inquiries, inquiries, ih, List.append_assoc]
    rfl

theorem inquiries_concat (t : Traffic) (list : List Stroke) (s : Stroke) :
    t.inquiries (list ++ [s]) = t.inquiries list ++ ((t.strokes list).inquiry? s).toList := by
  rw [inquiries_append, inquiries, inquiries, List.append_nil]

/-- In a run of strokes a caller has heard an address from the resolver, which it has asked for in
the run or was waiting for at the beginning. -/
def Hears (t : Traffic) (list : List Stroke) (i : Nat) (e : Endpoint) (a : Address) : Prop :=
  [.asked i e, .heard i e a] <+ t.inquiries list ∨
    (t.awaited? i = some e ∧ .heard i e a ∈ t.inquiries list)

variable {t w : Traffic} {i j : Nat} {c d : Caller} {list : List Stroke} {e : Endpoint}
  {a : Address}

theorem Hears.concat (h : t.Hears list i e a) (s : Stroke) : t.Hears (list ++ [s]) i e a := by
  rw [Hears, inquiries_concat]
  obtain hasked | ⟨hawaited, hheard⟩ := h
  · exact .inl (hasked.trans (List.sublist_append_left _ _))
  · exact .inr ⟨hawaited, List.mem_append_left _ hheard⟩

theorem awaited?_eq (hc : t.callers[i]? = some c) : t.awaited? i = c.stage.awaited? := by
  rw [awaited?, hc]
  rfl

theorem Opening.awaited?_eq {stage : Stage} (h : Opening stage) : stage.awaited? = none := by
  cases h <;> rfl

theorem Opening.aim?_eq {stage : Stage} (h : Opening stage) : stage.aim? = none := by
  cases h <;> rfl

/-! ### What a stroke lets a caller find -/

/-- How a stroke takes a caller on, as far as addresses go. -/
inductive Finds (t : Traffic) (i : Nat) (c : Caller) : Stroke → Stage → Prop
  /-- It goes on with what it has, or with nothing. -/
  | keeps {s : Stroke} {stage : Stage}
      (awaits : stage.awaited? = none ∨ stage.awaited? = c.stage.awaited?)
      (aims : stage.aim? = none ∨ stage.aim? = c.stage.aim?) : Finds t i c s stage
  /-- The address is among those that are kept. -/
  | kept {route : Route} {address : Address} (caches : c.options.cacheAddresses = true)
      (known : t.broker.pool.address? (Acquire.endpoint route) = some address) :
      Finds t i c (.action (.caller i .locate)) (.located route address)
  /-- The resolver has to be asked. -/
  | asks {route : Route} (before : c.stage = .lacking route) :
      Finds t i c (.action (.caller i .locate)) (.resolving route)
  /-- The resolver has answered. -/
  | hears {route : Route} {address : Address} (before : c.stage = .resolving route) :
      Finds t i c (.action (.caller i (.answer (.ok address)))) (.located route address)

theorem finds_touched {h : Handle} {x y : Option Exchange} (hstage : c.stage = .holding h x)
    {p : Exchange.Progress} (hleaves : Exchange.Leaves h.link p) (s : Stroke) :
    t.Finds i c s (.holding { h with link := p.link } y) := by
  obtain ⟨buffer, reusable, hlink⟩ := hleaves.same
  refine .keeps (.inl rfl) (.inr ?_)
  rw [hstage, hlink]
  rfl

theorem finds_act (hs : t.Sound) (hc : t.callers[i]? = some c) (deed : Deed) :
    ∃ stage, (t.act i c deed).callers[i]? = some { c with stage } ∧
      t.Finds i c (.action (.caller i deed)) stage := by
  rw [act.eq_def]
  split
  · next route hstage =>
    rw [take]
    generalize t.broker.pool.checkout t.broker.network.clock route.destination = result
    obtain ⟨_ | link, pool⟩ := result
    · exact ⟨_, getElem?_turn hc _, .keeps (.inl rfl) (.inl rfl)⟩
    · exact ⟨_, getElem?_turn hc _, .keeps (.inl rfl) (.inl rfl)⟩
  · next route h hstage =>
    rw [probe]
    have halive := @Network.probe_alive t.broker.network h.link
    generalize t.broker.network.probe h.link = result at halive ⊢
    obtain ⟨_ | _, link, network⟩ := result
    · obtain rfl : link = h.link := halive rfl
      exact ⟨_, getElem?_turn hc _, .keeps (.inl rfl) (.inr (by rw [hstage]; rfl))⟩
    · exact ⟨_, getElem?_turn hc _, .keeps (.inl rfl) (.inl rfl)⟩
  · next route hstage =>
    refine ⟨_, getElem?_turn hc _, ?_⟩
    split
    · next hcaches =>
      cases hknown : t.broker.pool.address? (Acquire.endpoint route) with
      | none => exact .asks hstage
      | some address => exact .kept hcaches hknown
    · exact .asks hstage
  · next result route hstage =>
    cases result with
    | error error => exact ⟨_, getElem?_turn hc _, .keeps (.inl rfl) (.inl rfl)⟩
    | ok address => exact ⟨_, getElem?_turn hc _, .hears hstage⟩
  · next route address hstage =>
    exact ⟨_, getElem?_turn hc _, .keeps (.inl rfl) (.inr (by rw [hstage]; rfl))⟩
  · next ticket attempt hstage =>
    rw [connect]
    obtain ⟨network, -, ⟨error, heq⟩ | ⟨-, heq⟩⟩ := t.broker.connect_cases attempt
    · rw [heq]
      exact ⟨_, getElem?_turn hc _, .keeps (.inl rfl) (.inl rfl)⟩
    · rw [heq]
      exact ⟨_, getElem?_turn hc _, .keeps (.inl rfl) (.inr (by rw [hstage]; rfl))⟩
  · exact ⟨_, getElem?_turn hc _, .keeps (.inl rfl) (.inl rfl)⟩
  · exact ⟨_, getElem?_turn hc _, .keeps (.inl rfl) (.inl rfl)⟩
  · next request h hstage =>
    exact ⟨_, getElem?_turn hc _, finds_touched hstage (Link.send_leaves _ _ _ _ _) _⟩
  · next h x hstage =>
    obtain ⟨_, -, -, hinUse⟩ := hs.fits_stage hc hstage
    exact ⟨_, getElem?_turn hc _, finds_touched hstage (Exchange.run_leaves _ _ (hinUse rfl) _ _) _⟩
  · next h x hstage =>
    exact ⟨_, getElem?_turn hc _, .keeps (.inl rfl) (.inr (by rw [hstage]; rfl))⟩
  · exact ⟨_, getElem?_turn hc _, .keeps (.inl rfl) (.inl rfl)⟩
  · exact ⟨_, getElem?_turn hc _, .keeps (.inl rfl) (.inl rfl)⟩
  · exact ⟨c.stage, hc, .keeps (.inr rfl) (.inr rfl)⟩

/-- **Whoever is there after a stroke** has just come, or was there and has found something. -/
theorem finds_stroke (hs : t.Sound) (s : Stroke) (hd : (t.stroke s).callers[j]? = some d) :
    (t.callers[j]? = none ∧ Opening d.stage) ∨
      ∃ c, t.callers[j]? = some c ∧ d = { c with stage := d.stage } ∧ t.Finds j c s d.stage := by
  by_cases hnumber : s.number? = some j
  · cases hc : t.callers[j]? with
    | none =>
      rw [stroke_of_none hnumber hc, hc] at hd
      cases hd
    | some c =>
      refine .inr ⟨c, rfl, ?_⟩
      obtain ⟨action, rfl⟩ | heq | ⟨i, c', h, x, p, hi, hc', hstage, -, hleaves, heq⟩ :=
        stroke_cases hs s
      · cases action with
        | caller i deed =>
          cases hnumber
          rw [stroke, step, hc] at hd
          obtain ⟨stage, hstage, hfinds⟩ := finds_act hs hc deed
          cases hd.symm.trans hstage
          exact ⟨rfl, hfinds⟩
        | _ => cases hnumber
      · rw [heq, hc] at hd
        cases hd
        exact ⟨rfl, .keeps (.inr rfl) (.inr rfl)⟩
      · cases hi.symm.trans hnumber
        cases hc'.symm.trans hc
        rw [heq, callers_touch hc] at hd
        cases hd
        exact ⟨rfl, finds_touched hstage hleaves s⟩
  · obtain hsame | ⟨hnone, hnew⟩ := callers_stroke_of_ne hs hnumber
    · exact .inr ⟨d, hsame ▸ hd, rfl, .keeps (.inr rfl) (.inr rfl)⟩
    · exact .inl ⟨hnone, hnew d hd⟩

/-! ### What else a stroke does -/

theorem addresses_act (t : Traffic) (i : Nat) (c : Caller) (deed : Deed)
    {entry : Endpoint × Address} (h : entry ∈ (t.act i c deed).broker.pool.addresses) :
    entry ∈ t.broker.pool.addresses ∨
      (deed = .answer (.ok entry.2) ∧ c.stage.awaited? = some entry.1) := by
  rw [act.eq_def] at h
  split at h
  case h_1 route hstage =>
    have haddresses : (t.take i c route).broker.pool.addresses = t.broker.pool.addresses :=
      (t.broker.pool.checkout_takesOut t.broker.network.clock route.destination).addresses
    exact .inl (haddresses ▸ h)
  case h_4 result route hstage =>
    cases result with
    | error error => exact .inl h
    | ok address =>
      rw [answer] at h
      dsimp only [turn] at h
      split at h
      · rcases List.mem_cons.1 h with rfl | hold
        · exact .inr ⟨rfl, by rw [hstage]; rfl⟩
        · exact .inl (List.mem_filter.1 hold).1
      · exact .inl h
  case h_6 ticket attempt hstage =>
    rw [connect] at h
    obtain ⟨network, -, ⟨error, heq⟩ | ⟨-, heq⟩⟩ := t.broker.connect_cases attempt
    all_goals
      rw [heq] at h
      exact .inl h
  case h_12 held hstage =>
    have haddresses : (t.drop i c held).broker.pool.addresses = t.broker.pool.addresses :=
      Pool.addresses_checkin _ _ _ _
    exact .inl (haddresses ▸ h)
  all_goals exact .inl h

/-- **An address is kept** after a stroke if it was before, or if it has just been heard. -/
theorem addresses_stroke (hs : t.Sound) (s : Stroke) {entry : Endpoint × Address}
    (h : entry ∈ (t.stroke s).broker.pool.addresses) :
    entry ∈ t.broker.pool.addresses ∨
      ∃ i, s = .action (.caller i (.answer (.ok entry.2))) ∧ t.awaited? i = some entry.1 := by
  revert h
  refine of_stroke hs s ?stays ?enters ?acts ?forgets ?resets ?goesOn ?touches
  case acts =>
    intro i c deed heq hc h
    obtain hold | ⟨rfl, hawaited⟩ := addresses_act t i c deed h
    · exact .inl hold
    · exact .inr ⟨i, heq, (awaited?_eq hc).trans hawaited⟩
  case forgets => exact fun h => absurd h List.not_mem_nil
  case resets => exact fun h => absurd h List.not_mem_nil
  all_goals
    intros
    left
    assumption

/-- What is known of addresses after a run of strokes. -/
structure Known (w : Traffic) (list : List Stroke) : Prop where
  /-- Who waits for the resolver has asked it, or did so at the beginning. -/
  awaits : ∀ i e, (w.strokes list).awaited? i = some e →
    .asked i e ∈ w.inquiries list ∨ w.awaited? i = some e
  /-- What is kept has been heard. -/
  keeps : ∀ entry ∈ (w.strokes list).broker.pool.addresses,
    ∃ i, w.Hears list i entry.1 entry.2
  /-- Who comes goes on with what it has heard itself, or with what is kept. -/
  aims : ∀ (i : Nat) (c : Caller), w.callers.length ≤ i →
    (w.strokes list).callers[i]? = some c → ∀ e a, c.stage.aim? = some (e, a) →
      w.Hears list i e a ∨ (c.options.cacheAddresses = true ∧ ∃ j, w.Hears list j e a)

theorem strokes_concat (t : Traffic) (list : List Stroke) (s : Stroke) :
    t.strokes (list ++ [s]) = (t.strokes list).stroke s := strokes_append t list [s]

theorem known_nil (h : w.broker.pool.addresses = []) : w.Known [] := by
  refine ⟨fun i e hawaited => .inr hawaited, fun entry hentry => ?_, fun i c hle hc => ?_⟩
  · rw [strokes_nil, h] at hentry
    cases hentry
  · rw [strokes_nil, List.getElem?_eq_none hle] at hc
    cases hc

/-- A caller that hears an answer has heard it in the run. -/
theorem Known.hears (hk : w.Known list) (hawaited : (w.strokes list).awaited? i = some e)
    (a : Address) : w.Hears (list ++ [.action (.caller i (.answer (.ok a)))]) i e a := by
  have hnow : w.inquiries (list ++ [.action (.caller i (.answer (.ok a)))]) =
      w.inquiries list ++ [.heard i e a] := by
    rw [inquiries_concat, inquiry?, hawaited]
    rfl
  rw [Hears, hnow]
  obtain hasked | hbefore := hk.awaits i e hawaited
  · exact .inl ((List.singleton_sublist.2 hasked).append (List.Sublist.refl _))
  · exact .inr ⟨hbefore, List.mem_append_right _ (List.mem_singleton_self _)⟩

/-- A caller that waits for the resolver after a stroke did so before, or has just asked. -/
theorem awaited_stroke (hs : t.Sound) (s : Stroke) (h : (t.stroke s).awaited? i = some e) :
    t.awaited? i = some e ∨ t.inquiry? s = some (.asked i e) := by
  obtain ⟨d, hd, hawaited⟩ := Option.bind_eq_some_iff.1 h
  obtain ⟨-, hnew⟩ | ⟨c, hc, -, hfinds⟩ := finds_stroke hs s hd
  · rw [hnew.awaited?_eq] at hawaited
    cases hawaited
  · rw [awaited?_eq hc]
    generalize d.stage = stage at hfinds hawaited
    cases hfinds with
    | keeps awaits =>
      rw [hawaited] at awaits
      exact .inl (awaits.resolve_left (Option.some_ne_none e)).symm
    | kept => cases hawaited
    | @asks route before =>
      refine .inr ?_
      rw [inquiry?, awaited?_eq hc, before, h]
      rfl
    | hears => cases hawaited

/-- **Every stroke preserves it.** -/
theorem Known.concat (hk : w.Known list) (hs : (w.strokes list).Sound) (s : Stroke) :
    w.Known (list ++ [s]) := by
  refine ⟨fun i e hawaited => ?_, fun entry hentry => ?_, fun i c hle hc e a haim => ?_⟩
  · rw [strokes_concat] at hawaited
    rw [inquiries_concat]
    obtain hbefore | hnow := awaited_stroke hs s hawaited
    · exact (hk.awaits i e hbefore).imp_left (List.mem_append_left _)
    · exact .inl (List.mem_append_right _ (Option.mem_toList.2 hnow))
  · rw [strokes_concat] at hentry
    obtain hold | ⟨i, rfl, hawaited⟩ := addresses_stroke hs s hentry
    · obtain ⟨i, hears⟩ := hk.keeps entry hold
      exact ⟨i, hears.concat s⟩
    · exact ⟨i, hk.hears hawaited entry.2⟩
  · rw [strokes_concat] at hc
    obtain ⟨-, hnew⟩ | ⟨before, hbefore, hsame, hfinds⟩ := finds_stroke hs s hc
    · rw [hnew.aim?_eq] at haim
      cases haim
    · rw [hsame]
      generalize c.stage = stage at hfinds haim
      cases hfinds with
      | keeps _ aims =>
        rw [haim] at aims
        have hold := aims.resolve_left (Option.some_ne_none _)
        exact (hk.aims i before hle hbefore e a hold.symm).imp (·.concat s)
          (.imp_right fun ⟨j, hears⟩ => ⟨j, hears.concat s⟩)
      | kept caches known =>
        cases haim
        obtain ⟨j, hears⟩ := hk.keeps _ (Pool.mem_addresses_of_address? known)
        exact .inr ⟨caches, j, hears.concat _⟩
      | asks => cases haim
      | hears waits =>
        cases haim
        exact .inl (hk.hears (by rw [awaited?_eq hbefore, waits]; rfl) a)

/-- **What is known after every run** that begins with no address kept. -/
theorem known_strokes (hs : w.Sound) (h : w.broker.pool.addresses = []) (list : List Stroke) :
    w.Known list := by
  induction list using List.reverseRecOn with
  | nil => exact known_nil h
  | append_singleton list s ih => exact ih.concat (sound_strokes hs list) s

end Traffic

end HttpExchange
