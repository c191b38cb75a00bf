import HttpExchange.Call.Turn
import HttpExchange.Proofs.Calls.Basic
import HttpExchange.Proofs.Traffic.Alone

/-!
# A hop that nobody interrupts

In `Calls` a hop goes on by one stroke at a time.  Where it goes on and nobody comes between, it
comes to what is made of it in one piece elsewhere:

* `exists_alone_begin` — asking for a link, up to the first wait, is `Acquire.begin`;
* `exists_alone_exchange` — sending, reading, letting go and following is `Turn.exchange`;
* `exists_alone_resume` — from where an exchange had to wait, it is `Turn.afterExchange` of what
  `Broker.resume` comes to.
-/

namespace HttpExchange.Calls

variable {u v : Calls} {i : Nat} {c : Caller}

/-- The hop goes on so many times, and nobody else. -/
def alone (u : Calls) (i : Nat) (answer : Except IoError Address) (count : Nat) : Calls :=
  u.run (List.replicate count (.goOn i answer))

@[simp]
theorem alone_zero (u : Calls) (i : Nat) (answer : Except IoError Address) :
    u.alone i answer 0 = u := rfl

theorem alone_succ (hc : u.traffic.callers[i]? = some c) (answer : Except IoError Address)
    (count : Nat) : u.alone i answer (count + 1) = (u.goOn i c answer).alone i answer count := by
  rw [alone, List.replicate_succ, run_cons, step, hc]
  rfl

theorem alone_add (u : Calls) (i : Nat) (answer : Except IoError Address) (m n : Nat) :
    u.alone i answer (m + n) = (u.alone i answer m).alone i answer n := by
  rw [alone, List.replicate_add, run, List.foldl_append]
  rfl

/-! ### Getting a link -/

/-- A hop that is getting a link does what can be done next; any other deed does nothing. -/
theorem deed_of_seeks (hc : u.traffic.callers[i]? = some c) (hgoing : (u.hops i).state = .going)
    {d : Deed} (hd : d.Seeks) (answer : Except IoError Address) :
    u.deed i d = u ∨ u.goOn i c answer = u.deed i d := by
  have hact : u.traffic.act i c d = u.traffic ∨ u.goOn i c answer = u.deed i d := by
    rw [Traffic.act.eq_def]
    split
    case h_1 hstage => exact .inr (by simp only [goOn, hgoing, hstage])
    case h_2 hstage => exact .inr (by simp only [goOn, hgoing, hstage])
    case h_3 hstage => exact .inr (by simp only [goOn, hgoing, hstage])
    case h_5 hstage => exact .inr (by simp only [goOn, hgoing, hstage])
    case h_14 => exact .inl rfl
    all_goals cases hd
  refine hact.imp_left fun hnone => ?_
  rw [deed, stroke, Traffic.stroke, Traffic.step, hc]
  exact congrArg (fun traffic => { u with traffic }) hnone

/-- **Getting on to a link, with nobody between,** is doing one deed after the other. -/
theorem exists_alone_seek (hi : i < u.traffic.callers.length) (hgoing : (u.hops i).state = .going)
    {deeds : List Deed} (hdeeds : ∀ d ∈ deeds, d.Seeks) (answer : Except IoError Address) :
    ∃ n, u.alone i answer n = { u with traffic := u.traffic.run (deeds.map (.caller i)) } := by
  induction deeds generalizing u with
  | nil => exact ⟨0, rfl⟩
  | cons d rest ih =>
    obtain ⟨hd, hrest⟩ := List.forall_mem_cons.1 hdeeds
    have hc := List.getElem?_eq_getElem hi
    have hmore : i < (u.deed i d).traffic.callers.length := by
      have hasked := (Traffic.later_step u.traffic (.caller i d)).asked.length_le
      simp only [Traffic.asked, List.length_map] at hasked
      exact Nat.lt_of_lt_of_le hi hasked
    obtain ⟨n, hn⟩ := ih (u := u.deed i d) hmore hgoing hrest
    obtain hnone | hdone := deed_of_seeks hc hgoing hd answer
    · have hsame : u.traffic.step (.caller i d) = u.traffic := congrArg traffic hnone
      rw [hnone] at hn
      exact ⟨n, by rw [hn, List.map_cons, Traffic.run_cons, hsame]⟩
    · refine ⟨n + 1, ?_⟩
      rw [alone_succ hc, hdone, hn]
      rfl

/-- **A call begins, and its hop asks for a link** up to the first wait. -/
theorem exists_alone_begin (u : Calls) (o : ClientOptions) (limit : Nat) (r : Outgoing)
    (answer : Except IoError Address) :
    let t := u.traffic
    let i := t.callers.length
    let (start, p, n) := Acquire.begin t.broker.routing o r t.broker.pool t.broker.network
    ∃ count, (u.step (.submit o limit r)).alone i answer count =
      { u with
        traffic := (t.joined p n ⟨o, r, .afterBegin t.started.length start⟩).dialled start.attempt?
        hops := Function.update u.hops i { limit } } := by
  intro t i
  obtain ⟨deeds, hdeeds, hrun⟩ := t.exists_run_begin o r
  have hi : i < (t.step (.ask o r)).callers.length := by
    rw [Traffic.step, Traffic.ask]
    split <;> simp [i]
  have hgoing : ((u.step (.submit o limit r)).hops i).state = .going := by
    show (Function.update u.hops i { limit } i).state = .going
    rw [Function.update_self]
  obtain ⟨count, hcount⟩ := exists_alone_seek hi hgoing hdeeds answer
  let entered (traffic : Traffic) : Calls :=
    { u with traffic, hops := Function.update u.hops i { limit } }
  exact ⟨count, hcount.trans (congrArg entered hrun)⟩

/-! ### From the request to the next hop -/

/-- The exchange of a hop has stopped like this, and everybody else is where they were. -/
structure Stopped (u : Calls) (i : Nat) (c : Caller) (h : Handle) (p : Exchange.Progress)
    (v : Calls) : Prop where
  reads : v.join = u.join
  traffic : v.traffic = u.traffic.touch i c h p
  hops : v.hops = (u.setState i (HopState.going.after p.outcome)).hops

/-- What a hop has come to that came to this in one piece. -/
inductive Comes (u : Calls) (i : Nat) (c : Caller) : Turn × Broker → Calls → Prop
  /-- It has to wait. -/
  | waits {h : Handle} {x : Exchange} {wake : Option Nat} {v : Calls}
      (caller : v.traffic.callers[i]? = some { c with stage := .holding h (some x) })
      (hops : v.hops = (u.setState i .going).hops) :
      Comes u i c
        (.stop (.exchanging ⟨c.request, (u.hops i).redirects⟩ h x wake), v.traffic.broker) v
  /-- The call is over. -/
  | ends {result : Except CallError Reply} {v : Calls}
      (caller : v.traffic.callers[i]? = some { c with stage := .gone })
      (hops : v.hops = (u.setState i (.over result)).hops) :
      Comes u i c (.stop (.finished result), v.traffic.broker) v
  /-- A redirect is followed. -/
  | follows {next : Chain} {v : Calls}
      (caller : v.traffic.callers[i]? = some { c with stage := .gone })
      (hops : v.hops = (u.setState i .followed).hops) :
      Comes u i c (.again next, v.traffic.broker)
        (v.enter c.options { limit := (u.hops i).limit, redirects := next.redirects } next.request)

/-- Only the last of what a hop has come to counts. -/
theorem setState_of_hops {a : HopState} (h : v.hops = (u.setState i a).hops) (b : HopState) :
    (v.setState i b).hops = (u.setState i b).hops := by
  simp [setState, h]

namespace Stopped

variable {h : Handle} {p q : Exchange.Progress}

/-- Stopping twice is stopping once, where it stopped at last. -/
theorem trans (hp : u.Stopped i c h p v) {w : Calls} {stage : Stage}
    (hq : v.Stopped i { c with stage } { h with link := p.link } q w)
    (hid : q.link.id = p.link.id) : u.Stopped i c h q w := by
  refine ⟨hq.reads.trans hp.reads, ?_, hq.hops.trans (setState_of_hops hp.hops _)⟩
  rw [hq.traffic, hp.traffic]
  exact Traffic.touch_touch _ i c h hid stage

theorem callers (hp : u.Stopped i c h p v) (hc : u.traffic.callers[i]? = some c) :
    v.traffic.callers[i]? =
      some { c with stage := .holding { h with link := p.link } p.outcome.exchange? } := by
  rw [hp.traffic]
  exact Traffic.callers_touch hc h p

theorem state (hp : u.Stopped i c h p v) : (v.hops i).state = HopState.going.after p.outcome := by
  rw [hp.hops]
  exact u.state_setState i _

end Stopped

section Compose

variable (hs : u.traffic.Sound) (hc : u.traffic.callers[i]? = some c) {h : Handle}
include hs hc

theorem Stopped.sound {x : Option Exchange} {p : Exchange.Progress} (hp : u.Stopped i c h p v)
    (hstage : c.stage = .holding h x) (hleaves : Exchange.Leaves h.link p) : v.traffic.Sound := by
  rw [hp.traffic]
  exact Traffic.sound_touch hs hc hstage hleaves

theorem Stopped.stream {x : Option Exchange} {p : Exchange.Progress} (hp : u.Stopped i c h p v)
    (hstage : c.stage = .holding h x) (hleaves : Exchange.Leaves h.link p) :
    v.traffic.broker.network.stream p.link.id = p.stream := by
  rw [hp.traffic]
  exact Traffic.stream_touch hs hc hstage hleaves

/-- To stop where the exchange stops that goes on is to stop where it stops from here. -/
theorem Stopped.resumed {x : Option Exchange} {p : Exchange.Progress} (hp : u.Stopped i c h p v)
    (hstage : c.stage = .holding h x) (hleaves : Exchange.Leaves h.link p) {y : Exchange}
    {wake : Option Nat} (houtcome : p.outcome = .waiting y wake) {w : Calls} {stage : Stage}
    (hw : v.Stopped i { c with stage } { h with link := p.link }
      (y.run false v.traffic.broker.network.now p.link
        (v.traffic.broker.network.stream p.link.id)) w) :
    u.Stopped i c h (y.run false p.now p.link p.stream) w := by
  have hnow : v.traffic.broker.network.now = p.now := by
    rw [hp.traffic]
    rfl
  rw [hnow, hp.stream hs hc hstage hleaves] at hw
  exact hp.trans hw
    (Exchange.run_leaves false p.now (hleaves.inUse y wake houtcome) p.stream y).id_eq

variable (hgoing : (u.hops i).state = .going) (answer : Except IoError Address)
include hgoing

/-- **Moves with nobody between are what resuming does.** -/
theorem exists_stopped_run {x : Exchange} (hstage : c.stage = .holding h (some x)) :
    ∃ n, u.Stopped i c h (x.run false u.traffic.broker.network.now h.link
      (u.traffic.broker.network.stream h.link.id)) (u.alone i answer n) := by
  induction hleft : x.left (u.traffic.broker.network.stream h.link.id)
    using Nat.strong_induction_on generalizing u c h x with
  | _ left ih =>
    obtain ⟨_, -, -, hinUse⟩ := hs.fits_stage hc hstage
    have hleaves : Exchange.Leaves h.link (u.traffic.broker.move h x).progress :=
      Exchange.move_leaves _ (hinUse rfl) _ _
    have hmoves := Exchange.run_move u.traffic.broker.network.now h.link
      (u.traffic.broker.network.stream h.link.id) x
    rw [← Broker.move] at hmoves
    have hgoes : u.goOn i c answer = u.touch i h (.move i) (u.traffic.broker.move h x) := by
      simp only [goOn, hgoing, hstage]
    have hstopped : u.Stopped i c h (u.traffic.broker.move h x).progress (u.goOn i c answer) := by
      rw [hgoes]
      exact ⟨rfl, Traffic.stroke_move hc hstage, by rw [← hgoing]; rfl⟩
    obtain ⟨-, hrun⟩ | ⟨y, houtcome, hlt, hrun⟩ := hmoves
    · refine ⟨1, ?_⟩
      rw [alone_succ hc, alone_zero, ← hrun]
      exact hstopped
    · have hholds := hstopped.callers hc
      have hstill := hstopped.state
      rw [houtcome] at hholds hstill
      have hsound := hstopped.sound hs hc hstage hleaves
      have hless : y.left ((u.goOn i c answer).traffic.broker.network.stream
          (u.traffic.broker.move h x).progress.link.id) < left := by
        rw [hstopped.stream hs hc hstage hleaves]
        exact hleft ▸ hlt
      obtain ⟨n, hn⟩ := ih _ hless hsound hholds hstill rfl rfl
      refine ⟨n + 1, ?_⟩
      rw [alone_succ hc, ← hrun]
      exact hstopped.resumed hs hc hstage hleaves houtcome hn

/-- **So is sending**, after the exchange has begun. -/
theorem exists_stopped_send (hstage : c.stage = .holding h none) :
    ∃ n, u.Stopped i c h (h.link.send false u.traffic.broker.network.now c.request
      (u.traffic.broker.network.stream h.link.id)) (u.alone i answer n) := by
  have hleaves : Exchange.Leaves h.link (u.traffic.broker.begun h c.request).progress :=
    Link.begun_leaves _ _ _ _
  have hsend := Link.send_begun u.traffic.broker.network.now h.link c.request
    (u.traffic.broker.network.stream h.link.id)
  rw [← Broker.begun] at hsend
  have hgoes : u.goOn i c answer =
      u.touch i h (.begin i c.request) (u.traffic.broker.begun h c.request) := by
    simp only [goOn, hgoing, hstage]
  have hstopped : u.Stopped i c h (u.traffic.broker.begun h c.request).progress
      (u.goOn i c answer) := by
    rw [hgoes]
    exact ⟨rfl, Traffic.stroke_begin hc hstage c.request, by rw [← hgoing]; rfl⟩
  obtain ⟨error, -, heq⟩ | ⟨y, houtcome, heq⟩ := hsend
  · refine ⟨1, ?_⟩
    rw [alone_succ hc, alone_zero, heq]
    exact hstopped
  · have hholds := hstopped.callers hc
    have hstill := hstopped.state
    rw [houtcome] at hholds hstill
    have hsound := hstopped.sound hs hc hstage hleaves
    obtain ⟨n, hn⟩ := exists_stopped_run hsound hholds hstill answer rfl
    refine ⟨n + 1, ?_⟩
    rw [alone_succ hc, heq]
    exact hstopped.resumed hs hc hstage hleaves houtcome hn

end Compose

/-- Letting go of a link is `Broker.release`. -/
theorem released {h : Handle} (hc : v.traffic.callers[i]? = some c)
    (hstage : c.stage = .holding h none) (state : HopState) :
    ((v.setState i state).deed i .drop).traffic.broker = v.traffic.broker.release h ∧
      ((v.setState i state).deed i .drop).traffic.callers[i]? = some { c with stage := .gone } := by
  have hdrop : ((v.setState i state).deed i .drop).traffic = v.traffic.drop i c h :=
    Traffic.stroke_drop hc hstage
  rw [hdrop]
  exact ⟨rfl, Traffic.getElem?_turn hc _⟩

/-- What a reply leads to is `Chain.onReply`. -/
theorem comes_of_replied {reply : Reply} (hreads : v.join = u.join)
    (hgone : v.traffic.callers[i]? = some { c with stage := .gone })
    (hhops : v.hops = (u.setState i (.replied reply)).hops) :
    u.Comes i c (match (⟨c.request, (u.hops i).redirects⟩ : Chain).onReply u.join c.options
        (u.hops i).limit reply with
      | .finished result => (.stop (.finished result), v.traffic.broker)
      | .follow next => (.again next, v.traffic.broker))
      (v.follow i { c with stage := .gone } reply) := by
  have hhop : v.hops i = { u.hops i with state := .replied reply } := by
    rw [hhops]
    exact Function.update_self ..
  rw [follow, hhop, hreads]
  cases (⟨c.request, (u.hops i).redirects⟩ : Chain).onReply u.join c.options (u.hops i).limit
    reply with
  | finished result =>
    exact .ends (v := v.setState i (.over result)) hgone (setState_of_hops hhops _)
  | follow next => exact .follows (v := v.setState i .followed) hgone (setState_of_hops hhops _)

/-- **What follows an exchange that has stopped** is `Turn.afterExchange`. -/
theorem Stopped.exists_alone {h : Handle} {p : Exchange.Progress} (hv : u.Stopped i c h p v)
    (hc : u.traffic.callers[i]? = some c) (answer : Except IoError Address) :
    ∃ n, u.Comes i c (Turn.afterExchange u.join c.options (u.hops i).limit
      ⟨c.request, (u.hops i).redirects⟩ p.outcome { h with link := p.link }
      (u.traffic.broker.settle p)) (v.alone i answer n) := by
  have hbroker : v.traffic.broker = u.traffic.broker.settle p := by
    rw [hv.traffic]
    rfl
  have hholds := hv.callers hc
  have hstate := hv.state
  rw [← hbroker]
  cases houtcome : p.outcome with
  | waiting x wake =>
    have hhops := hv.hops
    rw [houtcome] at hholds hhops
    exact ⟨0, .waits hholds hhops⟩
  | finished result =>
    rw [houtcome] at hholds hstate
    let d : Caller := { c with stage := .holding { h with link := p.link } none }
    cases result with
    | error error =>
      refine ⟨1, ?_⟩
      obtain ⟨hreleased, hgone⟩ := released hholds rfl (.over (.error error))
      have hgoes : v.goOn i d answer = (v.setState i (.over (.error error))).deed i .drop := by
        simp only [goOn, hstate, HopState.after, d]
      rw [alone_succ (c := d) hholds, alone_zero, hgoes, Turn.afterExchange, ← hreleased]
      exact .ends hgone (setState_of_hops hv.hops _)
    | ok reply =>
      refine ⟨2, ?_⟩
      obtain ⟨hreleased, hgone⟩ := released hholds rfl (.replied reply)
      have hgoes : v.goOn i d answer = (v.setState i (.replied reply)).deed i .drop := by
        simp only [goOn, hstate, HopState.after, d]
      have hfollows : ((v.setState i (.replied reply)).deed i .drop).goOn i
          { c with stage := .gone } answer =
            ((v.setState i (.replied reply)).deed i .drop).follow i { c with stage := .gone }
              reply := by
        have hreplied : (((v.setState i (.replied reply)).deed i .drop).hops i).state =
            .replied reply := v.state_setState i _
        simp only [goOn, hreplied]
      rw [alone_succ (c := d) hholds, hgoes, alone_succ hgone, alone_zero, Turn.afterExchange,
        ← hreleased, hfollows]
      exact comes_of_replied hv.reads hgone (setState_of_hops hv.hops _)

section Compose

variable (hs : u.traffic.Sound) (hc : u.traffic.callers[i]? = some c) {h : Handle}
  (hgoing : (u.hops i).state = .going) (answer : Except IoError Address)
include hs hc hgoing

/-- **From the request to the next hop** it is `Turn.exchange`. -/
theorem exists_alone_exchange (hstage : c.stage = .holding h none) :
    ∃ n, u.Comes i c (Turn.exchange u.join c.options (u.hops i).limit
      ⟨c.request, (u.hops i).redirects⟩ h u.traffic.broker) (u.alone i answer n) := by
  obtain ⟨m, hm⟩ := exists_stopped_send hs hc hgoing answer hstage
  obtain ⟨n, hn⟩ := hm.exists_alone hc answer
  exact ⟨m + n, by rw [alone_add]; exact hn⟩

/-- **So it is from a wait on**, with the exchange that had to wait. -/
theorem exists_alone_resume {x : Exchange} (hstage : c.stage = .holding h (some x)) :
    let (outcome, held, broker) := u.traffic.broker.resume h x
    ∃ n, u.Comes i c (Turn.afterExchange u.join c.options (u.hops i).limit
      ⟨c.request, (u.hops i).redirects⟩ outcome held broker) (u.alone i answer n) := by
  obtain ⟨m, hm⟩ := exists_stopped_run hs hc hgoing answer hstage
  obtain ⟨n, hn⟩ := hm.exists_alone hc answer
  exact ⟨m + n, by rw [alone_add]; exact hn⟩

end Compose

end HttpExchange.Calls
