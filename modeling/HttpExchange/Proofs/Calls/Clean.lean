import HttpExchange.Proofs.Calls.Record
import HttpExchange.Proofs.Traffic.Closing

/-!
# Only clean links are idle

The record of a link tells what has passed on it.  A link is `Clean` when that is one whole exchange
after the other: the request written out and flushed, and one delimited reply read, with nothing
behind it.  The record is not looked at when a link is given back; what is looked at is whether the
link may be used again, which the exchange sets at its end.  So two things are tied together at every
stage of a hop (`Fits`): before an exchange the link is clean, and while one is under way its record
is clean up to where that began, and from there tells how far it has come.

`Kept` is this for every hop, with the idle links clean.  What a step does not touch stays as it is
(`Kept.frame`), so that each kind of step has to show only what becomes of its own hop.

* `Kept.step`, `Kept.run` — what a step and a run preserve;
* `not_mem_places_step` — a hop that fails leaves its link in no place;
* `run_clean` — idle links are clean, and the link of a call that failed never comes back.
-/

namespace HttpExchange.Calls

variable {u v : Calls} {i j : Nat} {c : Caller}

/-- Every exchange that was ever begun on a link was a whole one. -/
def Clean (u : Calls) (link : Link) : Prop :=
  Whole link.viaProxy link.maxBody (u.record link.id)

/-- What is so of the link in a caller's hand. -/
def Fits (u : Calls) (i : Nat) : Stage → Prop
  | .probing _ h => h.link.reusable = true ∧ u.Clean h.link
  | .holding h none =>
    (h.link.reusable = true → u.Clean h.link) ∧
      ((u.hops i).state = .going → h.link.reusable = true) ∧
        ∀ error, (u.hops i).state = .answered (.error error) → h.link.reusable = false
  | .holding h (some x) =>
    ∃ before request passed, u.record h.link.id = before ++ .began request :: passed ∧
      Whole h.link.viaProxy h.link.maxBody before ∧ x.UnderWay h.link request passed
  | _ => True

/-- What is so after every run. -/
structure Kept (u : Calls) : Prop where
  sound : u.traffic.Sound
  /-- Nothing has passed on a link that there is not. -/
  blank : ∀ id, u.traffic.broker.network.streams.size ≤ id → u.record id = []
  idle : ∀ link ∈ u.traffic.broker.pool.idle, u.Clean link
  fits : ∀ i c, u.traffic.callers[i]? = some c → u.Fits i c.stage

/-! ### The frame of a stroke -/

theorem Clean.congr {link : Link} (h : u.Clean link)
    (hrecord : v.record link.id = u.record link.id) : v.Clean link := by
  rw [Clean, hrecord]
  exact h

theorem fits_of_empty {stage : Stage} (h : stage.handle? = none) : u.Fits i stage := by
  cases stage with
  | probing => cases h
  | holding => cases h
  | _ => trivial

/-- It depends on the hop and on the record of that link. -/
theorem Fits.congr {stage : Stage} (h : u.Fits i stage) (hhop : v.hops i = u.hops i)
    (hrecord : ∀ id, stage.link? = some id → v.record id = u.record id) : v.Fits i stage := by
  cases stage with
  | probing route handle => exact ⟨h.1, h.2.congr (hrecord _ rfl)⟩
  | holding handle exchange =>
    have hsame := hrecord _ rfl
    cases exchange with
    | none =>
      refine ⟨fun hreusable => (h.1 hreusable).congr hsame, ?_, ?_⟩
      · rw [hhop]
        exact h.2.1
      · rw [hhop]
        exact h.2.2
    | some x =>
      rw [Fits, hsame]
      exact h
  | _ => trivial

theorem state_touch (u : Calls) (i : Nat) (h : Handle) (s : Stroke) (m : Exchange.Motion) :
    ((u.touch i h s m).hops i).state = (u.hops i).state.after m.progress.outcome :=
  u.state_setState i _

theorem callers_abandon (hc : u.traffic.callers[i]? = some c) {h : Handle} {x : Exchange}
    (hstage : c.stage = .holding h (some x)) :
    (u.deed i .abandon).traffic.callers[i]? = some { c with stage := .holding h none } := by
  show (u.traffic.stroke (.action (.caller i .abandon))).callers[i]? = _
  rw [Traffic.stroke_abandon hc hstage]
  exact Traffic.getElem?_turn hc _

namespace Kept

variable (hk : u.Kept)
include hk

/-- **What a stroke does not touch stays as it is.**  Only the one whose stroke it is, the record of
the link in its hand, and what has come to a shelf have to be looked at. -/
theorem frame (s : Stroke) (htraffic : v.traffic = u.traffic.stroke s)
    (hhops : ∀ j < u.traffic.callers.length, s.number? ≠ some j → v.hops j = u.hops j)
    (hrecord : ∀ id, v.record id = u.record id ∨ ∃ i c, s.number? = some i ∧
      u.traffic.callers[i]? = some c ∧ c.stage.link? = some id)
    (hidle : ∀ link ∈ (u.traffic.stroke s).broker.pool.idle,
      link ∈ u.traffic.broker.pool.idle ∨ v.Clean link)
    (hfits : ∀ i c stage, s.number? = some i → u.traffic.callers[i]? = some c →
      (u.traffic.stroke s).callers[i]? = some { c with stage } →
      u.traffic.Passes s c.stage stage → v.Fits i stage) : v.Kept := by
  have hlater := Traffic.later_stroke hk.sound s
  refine ⟨?_, fun id hid => ?_, fun link hlink => ?_, fun j d hd => ?_⟩
  · rw [htraffic]
    exact Traffic.sound_stroke hk.sound s
  · rw [htraffic] at hid
    have hold := Nat.le_trans hlater.streams hid
    obtain hsame | ⟨i, c, -, hc, hlink⟩ := hrecord id
    · rw [hsame]
      exact hk.blank id hold
    · have hlt := hk.sound.numbered id (List.mem_append_right _
        (List.mem_filterMap.2 ⟨c, List.mem_of_getElem? hc, hlink⟩))
      exact absurd hlt (Nat.not_lt_of_le hold)
  · rw [htraffic] at hlink
    obtain hold | hclean := hidle link hlink
    · obtain hsame | ⟨i, c, -, hc, hheld⟩ := hrecord link.id
      · exact (hk.idle link hold).congr hsame
      · exact absurd rfl (hk.sound.id_ne_of_idle hc hheld hold)
    · exact hclean
  · rw [htraffic] at hd
    by_cases hnumber : s.number? = some j
    · cases hc : u.traffic.callers[j]? with
      | none =>
        rw [Traffic.stroke_of_none hnumber hc, hc] at hd
        cases hd
      | some c =>
        obtain ⟨stage, hstage, hpasses⟩ := Traffic.passes_stroke hk.sound hnumber hc
        cases hd.symm.trans hstage
        exact hfits j c stage hnumber hc hstage hpasses
    · obtain hsame | ⟨-, hnone⟩ := Traffic.callers_stroke_of_ne hk.sound hnumber
      · have hold : u.traffic.callers[j]? = some d := hsame ▸ hd
        refine (hk.fits j d hold).congr
          (hhops j (List.getElem?_eq_some_iff.1 hold).1 hnumber) fun id hid => ?_
        obtain hsame | ⟨i, c, hi, hc, hheld⟩ := hrecord id
        · exact hsame
        · have hne : i ≠ j := fun hij => hnumber (hij ▸ hi)
          exact absurd hid (hk.sound.link_ne hc hold hne hheld)
      · exact fits_of_empty (hnone d hd).handle?_eq

/-- What is on a shelf after a stroke was there before, unless it was let go of by it. -/
theorem idle_of_ne_drop {s : Stroke} (hs : ∀ i, s ≠ .action (.caller i .drop)) {link : Link}
    (hlink : link ∈ (u.traffic.stroke s).broker.pool.idle) : link ∈ u.traffic.broker.pool.idle := by
  obtain hold | ⟨i, _, _, _, heq, -⟩ := Traffic.idle_stroke hk.sound s hlink
  · exact hold
  · exact absurd heq (hs i)

/-! ### What a hop does -/

/-- Somebody comes, or something happens to what they all share. -/
theorem shared {s : Stroke} (hnumber : s.number? = none) (htraffic : v.traffic = u.traffic.stroke s)
    (hhops : ∀ j < u.traffic.callers.length, v.hops j = u.hops j)
    (hrecord : v.record = u.record) : v.Kept := by
  refine hk.frame s htraffic (fun j hj _ => hhops j hj) (fun id => .inl (congrFun hrecord id))
    (fun link hlink => .inl (hk.idle_of_ne_drop (fun i heq => ?_) hlink))
    fun i c stage hi => ?_
  · rw [heq] at hnumber
    cases hnumber
  · rw [hnumber] at hi
    cases hi

theorem enter (options : ClientOptions) (hop : Hop) (request : Outgoing) :
    (u.enter options hop request).Kept :=
  hk.shared (s := .action (.ask options request)) rfl rfl
    (fun _ hj => Function.update_of_ne (Nat.ne_of_lt hj) _ _) rfl

/-- A hop has come to something; its link is as it was. -/
theorem setState (i : Nat) {state : HopState} (hgoing : state ≠ .going)
    (hanswered : ∀ error, state ≠ .answered (.error error)) : (u.setState i state).Kept := by
  refine ⟨hk.sound, hk.blank, hk.idle, fun j d hd => ?_⟩
  have hfits := hk.fits j d hd
  by_cases hij : j = i
  · subst hij
    have hstate := u.state_setState j state
    cases hstage : d.stage with
    | holding handle exchange =>
      rw [hstage] at hfits
      cases exchange with
      | none =>
        refine ⟨hfits.1, fun h => ?_, fun error h => ?_⟩
        · rw [hstate] at h
          exact absurd h hgoing
        · rw [hstate] at h
          exact absurd h (hanswered error)
      | some x => exact hfits
    | probing =>
      rw [hstage] at hfits
      exact hfits
    | _ => trivial
  · exact hfits.congr (Function.update_of_ne hij _ _) fun _ _ => rfl

variable (hc : u.traffic.callers[i]? = some c)
include hc

/-- **Getting a link.**  An idle one is clean, and on a new one nothing has passed. -/
theorem seek {s : Stroke} (hnumber : s.number? = some i) (hseeks : ∀ h x, c.stage ≠ .holding h x)
    (hstate : ∀ error, (u.hops i).state ≠ .answered (.error error)) : (u.stroke s).Kept := by
  refine hk.frame s rfl (fun _ _ _ => rfl) (fun _ => .inl rfl) (fun link hlink => ?_) ?_
  · obtain hold | ⟨j, d, h, _, rfl, hd, hstage, -⟩ := Traffic.idle_stroke hk.sound s hlink
    · exact .inl hold
    · cases hnumber
      cases hd.symm.trans hc
      exact absurd hstage (hseeks h none)
  · intro j d stage hj hd _ hpasses
    cases hj.symm.trans hnumber
    cases hd.symm.trans hc
    have hfits := hk.fits i c hc
    generalize hbefore : c.stage = before at hpasses hfits
    cases hpasses with
    | stays => exact hfits
    | took hidle =>
      obtain ⟨_, hlink⟩ := Pool.mem_idle_iff.1 hidle
      exact ⟨(hk.sound.rests _ _ hlink).reusable, hk.idle _ hidle⟩
    | looked => exact ⟨fun _ => hfits.2, fun _ => hfits.1, fun _ h => absurd h (hstate _)⟩
    | connected hnumber hfresh =>
      refine ⟨fun _ => ?_, fun _ => hfresh, fun _ h => absurd h (hstate _)⟩
      show Whole _ _ (u.record _)
      rw [hk.blank _ (Nat.le_of_eq hnumber.symm)]
      exact whole_nil _ _
    | touched => exact absurd hbefore (hseeks _ _)
    | abandoned => exact absurd hbefore (hseeks _ _)
    | parted => trivial
    | without _ hnone => exact fits_of_empty hnone

/-- **Letting go of a link.** -/
theorem drop {h : Handle} (hstage : c.stage = .holding h none) : (u.deed i .drop).Kept := by
  have hfits := hk.fits i c hc
  rw [hstage] at hfits
  refine hk.frame (.action (.caller i .drop)) rfl (fun _ _ _ => rfl) (fun _ => .inl rfl)
    (fun link hlink => ?_) ?_
  · obtain hold | ⟨j, d, held, _, heq, hd, hheld, hreusable, rfl⟩ :=
      Traffic.idle_stroke hk.sound _ hlink
    · exact .inl hold
    · cases heq
      cases hd.symm.trans hc
      cases hheld.symm.trans hstage
      exact .inr (hfits.1 hreusable)
  · intro j d stage hj hd hafter _
    cases hj
    cases hd.symm.trans hc
    have hgone : (u.traffic.stroke (.action (.caller i .drop))).callers[i]? =
        some { c with stage := .gone } := by
      rw [Traffic.stroke_drop hc hstage]
      exact Traffic.getElem?_turn hc _
    cases hafter.symm.trans hgone
    trivial

/-- **Giving up an exchange**, once the hop is over. -/
theorem abandon {h : Handle} {x : Exchange} (hstage : c.stage = .holding h (some x))
    (hgoing : (u.hops i).state ≠ .going)
    (hanswered : ∀ error, (u.hops i).state ≠ .answered (.error error)) :
    (u.deed i .abandon).Kept := by
  refine hk.frame (.action (.caller i .abandon)) rfl (fun _ _ _ => rfl) (fun _ => .inl rfl)
    (fun link hlink => .inl (hk.idle_of_ne_drop (fun _ heq => by cases heq) hlink)) ?_
  intro j d stage hj hd hafter _
  cases hj
  cases hd.symm.trans hc
  cases hafter.symm.trans (callers_abandon hc hstage)
  obtain ⟨_, -, -, hinUse⟩ := hk.sound.fits_stage hc hstage
  refine ⟨fun hreusable => ?_, fun h => absurd h hgoing, fun error h => absurd h (hanswered error)⟩
  rw [hinUse rfl] at hreusable
  cases hreusable

/-- **A part of an exchange**: only what is left of the link and its record have to be looked at. -/
theorem touch {h : Handle} {x : Option Exchange} (hstage : c.stage = .holding h x) {s : Stroke}
    {m : Exchange.Motion} (hnumber : s.number? = some i)
    (hstroke : u.traffic.stroke s = u.traffic.touch i c h m.progress)
    (hdrop : ∀ i, s ≠ .action (.caller i .drop))
    (hfits : (u.touch i h s m).Fits i
      (.holding { h with link := m.progress.link } m.progress.outcome.exchange?)) :
    (u.touch i h s m).Kept := by
  refine hk.frame s rfl (fun j _ hj => ?_) (fun id => ?_)
    (fun link hlink => .inl (hk.idle_of_ne_drop hdrop hlink)) ?_
  · have hne : j ≠ i := fun heq => hj (heq ▸ hnumber)
    exact Function.update_of_ne hne _ _
  · by_cases hid : id = h.link.id
    · exact .inr ⟨i, c, hnumber, hc, by rw [hstage, hid]; rfl⟩
    · exact .inl (Function.update_of_ne hid _ _)
  · intro j d stage hj hd hafter _
    cases hj.symm.trans hnumber
    cases hd.symm.trans hc
    have hholds : (u.traffic.stroke s).callers[i]? = some { c with
        stage := .holding { h with link := m.progress.link } m.progress.outcome.exchange? } := by
      rw [hstroke]
      exact Traffic.getElem?_turn hc _
    cases hafter.symm.trans hholds
    exact hfits

end Kept

section Touch

variable {h : Handle} {s : Stroke} {m : Exchange.Motion}
  (hlink : ∃ buffer reusable, m.progress.link = { h.link with buffer, reusable })
include hlink

/-- The link of an exchange that goes on, if what has passed since it began is under way. -/
theorem fits_of_waiting {x : Exchange} {wake : Option Nat}
    (houtcome : m.progress.outcome = .waiting x wake) {before passed : List LinkEvent}
    {request : Outgoing}
    (hrecord : u.record h.link.id ++ m.passed = before ++ .began request :: passed)
    (hbefore : Whole h.link.viaProxy h.link.maxBody before)
    (hx : x.UnderWay m.progress.link request passed) :
    (u.touch i h s m).Fits i
      (.holding { h with link := m.progress.link } m.progress.outcome.exchange?) := by
  obtain ⟨buffer, reusable, hlink⟩ := hlink
  rw [houtcome]
  rw [hlink] at hx ⊢
  refine ⟨before, request, passed, ?_, hbefore, hx⟩
  rw [← hrecord]
  exact Function.update_self ..

/-- The link of an exchange that is over, if all that has passed on it are whole exchanges. -/
theorem fits_of_finished (hgoing : (u.hops i).state = .going) {result : Except CallError Reply}
    (houtcome : m.progress.outcome = .finished result)
    (hwhole : m.progress.link.reusable = true →
      Whole h.link.viaProxy h.link.maxBody (u.record h.link.id ++ m.passed))
    (hfailed : ∀ error, result = .error error → m.progress.link.reusable = false) :
    (u.touch i h s m).Fits i
      (.holding { h with link := m.progress.link } m.progress.outcome.exchange?) := by
  have hstate : ((u.touch i h s m).hops i).state = .answered result := by
    rw [state_touch, hgoing, houtcome, HopState.after]
  obtain ⟨buffer, reusable, hlink⟩ := hlink
  rw [houtcome]
  rw [hlink] at hwhole hfailed ⊢
  refine ⟨fun hreusable => ?_, fun hstill => ?_, fun error hanswered => ?_⟩
  · show Whole _ _ (Function.update u.record h.link.id _ h.link.id)
    rw [Function.update_self]
    exact hwhole hreusable
  · rw [hstate] at hstill
    cases hstill
  · rw [hstate, HopState.answered.injEq] at hanswered
    exact hfailed error hanswered

end Touch

namespace Kept

variable (hk : u.Kept) (hc : u.traffic.callers[i]? = some c) (hgoing : (u.hops i).state = .going)
include hk hc hgoing

/-- **An exchange begins** on a link that is clean. -/
theorem begin {h : Handle} (hstage : c.stage = .holding h none) :
    (u.touch i h (.begin i c.request) (u.traffic.broker.begun h c.request)).Kept := by
  refine hk.touch hc hstage rfl (Traffic.stroke_begin hc hstage c.request)
    (fun _ heq => by cases heq) ?_
  have hfits := hk.fits i c hc
  rw [hstage] at hfits
  have hreusable := hfits.2.1 hgoing
  obtain ⟨_, -, hserves, -⟩ := hk.sound.fits_stage hc hstage
  obtain ⟨hpassed, hlink, ⟨error, houtcome⟩ | ⟨x, houtcome, hx⟩⟩ :=
    Exchange.begun_cases u.traffic.broker.network.now c.request
      (u.traffic.broker.network.stream h.link.id) (hserves.settled hreusable)
  · refine fits_of_finished ⟨_, _, hlink⟩ hgoing houtcome (fun hwrong => ?_) fun _ _ => ?_
    · rw [Broker.begun, hlink] at hwrong
      cases hwrong
    · rw [Broker.begun, hlink]
  · refine fits_of_waiting ⟨_, _, hlink⟩ houtcome ?_ (hfits.1 hreusable) hx
    rw [← hpassed, Broker.begun]

/-- **An exchange goes on** by one operation. -/
theorem move {h : Handle} {x : Exchange} (hstage : c.stage = .holding h (some x)) :
    (u.touch i h (.move i) (u.traffic.broker.move h x)).Kept := by
  refine hk.touch hc hstage rfl (Traffic.stroke_move hc hstage) (fun _ heq => by cases heq) ?_
  have hfits := hk.fits i c hc
  rw [hstage] at hfits
  obtain ⟨before, request, passed, hrecord, hbefore, hx⟩ := hfits
  obtain ⟨_, -, -, hinUse⟩ := hk.sound.fits_stage hc hstage
  have hleaves := Exchange.move_leaves u.traffic.broker.network.now (hinUse rfl)
    (u.traffic.broker.network.stream h.link.id) x
  cases houtcome : (u.traffic.broker.move h x).progress.outcome with
  | finished result =>
    rw [← houtcome]
    refine fits_of_finished hleaves.same hgoing houtcome (fun hreusable => ?_) fun error h => ?_
    · obtain ⟨e, he⟩ := hx.exchanged (hinUse rfl) hreusable
      rw [hrecord, List.append_assoc, List.cons_append, Broker.move, ← he]
      exact hbefore.append e
    · exact Exchange.reusable_of_failed (hinUse rfl) (h ▸ houtcome)
  | waiting y wake =>
    rw [← houtcome]
    refine fits_of_waiting hleaves.same houtcome ?_ hbefore (hx.move houtcome)
    rw [hrecord, List.append_assoc, List.cons_append, Broker.move]

end Kept

/-! ### Every step -/

namespace Kept

variable (hk : u.Kept)
include hk

theorem follow (c : Caller) (reply : Reply) : (u.follow i c reply).Kept := by
  rw [Calls.follow]
  split
  · exact hk.setState i (by simp) (by simp)
  · exact (hk.setState i (by simp) (by simp)).enter _ _ _

theorem goOn (hc : u.traffic.callers[i]? = some c) (answer : Except IoError Address) :
    (u.goOn i c answer).Kept := by
  have hseek {d : Deed} (hgoing : (u.hops i).state = .going)
      (hseeks : ∀ h x, c.stage ≠ .holding h x) : (u.deed i d).Kept :=
    hk.seek hc rfl hseeks fun _ h => by rw [hgoing] at h; cases h
  rw [Calls.goOn]
  split
  · next hgoing hstage => exact hseek hgoing (by simp [hstage])
  · next hgoing hstage => exact hseek hgoing (by simp [hstage])
  · next hgoing hstage => exact hseek hgoing (by simp [hstage])
  · next hgoing hstage => exact hseek hgoing (by simp [hstage])
  · next hgoing hstage => exact hseek hgoing (by simp [hstage])
  · next hgoing hstage => exact hseek hgoing (by simp [hstage])
  · exact hk.setState i (by simp) (by simp)
  · next hgoing hstage => exact hk.begin hc hgoing hstage
  · next hgoing hstage => exact hk.move hc hgoing hstage
  · next hstage => exact (hk.setState i (by simp) (by simp)).drop hc hstage
  · next hstage => exact (hk.setState i (by simp) (by simp)).drop hc hstage
  · exact hk.follow c _
  · exact hk

theorem giveUp (hc : u.traffic.callers[i]? = some c) (error : CallError) :
    (u.giveUp i c error).Kept := by
  have hover : (u.setState i (.over (.error error))).Kept := hk.setState i (by simp) (by simp)
  have hstate := u.state_setState i (.over (.error error))
  have hnot (e : CallError) :
      ((u.setState i (.over (.error error))).hops i).state ≠ .answered (.error e) := by
    rw [hstate]
    simp
  rw [Calls.giveUp]
  split
  · next hstage => exact hover.seek hc rfl (by simp [hstage]) hnot
  · next hstage => exact hover.seek hc rfl (by simp [hstage]) hnot
  · next h x _ hstage =>
    have hgiven := hover.abandon hc hstage (by rw [hstate]; simp) hnot
    exact hgiven.drop (callers_abandon hc hstage) rfl
  · exact hk

/-- **Every step preserves it.** -/
theorem step (s : CallStep) : (u.step s).Kept := by
  cases s with
  | submit options limit request => exact hk.enter options _ request
  | goOn i answer =>
    rw [Calls.step]
    split
    · next hc => exact hk.goOn hc answer
    · exact hk
  | giveUp i error =>
    rw [Calls.step]
    split
    · next hc => exact hk.giveUp hc error
    · exact hk
  | forget => exact hk.shared (s := .action .forget) rfl rfl (fun _ _ => rfl) rfl
  | reset => exact hk.shared (s := .action .reset) rfl rfl (fun _ _ => rfl) rfl
  | world network => exact hk.shared (s := .action (.world network)) rfl rfl (fun _ _ => rfl) rfl

/-- **Every run preserves it.** -/
theorem run (steps : List CallStep) : (u.run steps).Kept := by
  induction steps generalizing u with
  | nil => exact hk
  | cons s rest ih => exact ih (hk.step s)

end Kept

theorem kept_start (join : Url.Joining) (routing : Routing) (maxIdlePerHost idleTimeout : Nat)
    (network : Network) :
    (start join routing maxIdlePerHost idleTimeout network).Kept :=
  ⟨Traffic.sound_start routing maxIdlePerHost idleTimeout network, fun _ _ => rfl,
    fun _ h => absurd h List.not_mem_nil, fun _ _ h => nomatch h⟩

/-! ### A step is made by one hop -/

theorem hops_setState_of_ne (u : Calls) (hne : i ≠ j) (state : HopState) :
    (u.setState j state).hops i = u.hops i :=
  Function.update_of_ne hne _ _

/-- The other hops stay what they are. -/
theorem hops_goOn_of_ne (hi : i < u.traffic.callers.length) (hne : i ≠ j) (c : Caller)
    (answer : Except IoError Address) : (u.goOn j c answer).hops i = u.hops i := by
  rw [goOn]
  split
  case h_7 => exact u.hops_setState_of_ne hne _
  case h_8 => exact u.hops_setState_of_ne hne _
  case h_9 => exact u.hops_setState_of_ne hne _
  case h_10 => exact u.hops_setState_of_ne hne _
  case h_11 => exact u.hops_setState_of_ne hne _
  case h_12 reply _ _ =>
    rw [follow]
    split
    · exact u.hops_setState_of_ne hne _
    · exact (Function.update_of_ne (Nat.ne_of_lt hi) _ _).trans (u.hops_setState_of_ne hne _)
  all_goals rfl

theorem hops_giveUp_of_ne (hne : i ≠ j) (c : Caller) (error : CallError) :
    (u.giveUp j c error).hops i = u.hops i := by
  rw [giveUp]
  split
  · exact u.hops_setState_of_ne hne _
  · exact u.hops_setState_of_ne hne _
  · exact u.hops_setState_of_ne hne _
  · rfl

/-! ### A call that fails takes its link with it -/

section Gone

variable (hk : u.Kept) (hc : u.traffic.callers[i]? = some c) {id : Nat}
  (hlink : c.stage.link? = some id) (hbefore : ∀ result, (u.hops i).state ≠ .over result)
  {error : CallError}
include hk hc hlink hbefore

theorem not_mem_places_goOn (answer : Except IoError Address)
    (hafter : ((u.goOn i c answer).hops i).state = .over (.error error)) :
    id ∉ (u.goOn i c answer).traffic.places := by
  have hfits := hk.fits i c hc
  obtain ⟨v, hv⟩ : ∃ v, u.goOn i c answer = v := ⟨_, rfl⟩
  rw [hv] at hafter ⊢
  rw [Calls.goOn] at hv
  split at hv
  all_goals subst hv
  case h_7 _ hstage =>
    rw [hstage] at hlink
    cases hlink
  case h_8 hgoing _ =>
    rw [state_touch, hgoing] at hafter
    exact absurd hafter (HopState.after_ne_over _ _)
  case h_9 hgoing _ =>
    rw [state_touch, hgoing] at hafter
    exact absurd hafter (HopState.after_ne_over _ _)
  case h_10 hanswered hstage =>
    rw [hstage] at hlink hfits
    cases hlink
    exact Traffic.not_mem_places_drop hk.sound hc hstage (hfits.2.2 _ hanswered)
  case h_11 =>
    cases (u.state_setState i _).symm.trans hafter
  case h_12 _ hstage =>
    rw [hstage] at hlink
    cases hlink
  all_goals exact absurd hafter (hbefore _)

theorem not_mem_places_giveUp (why : CallError)
    (hafter : ((u.giveUp i c why).hops i).state = .over (.error error)) :
    id ∉ (u.giveUp i c why).traffic.places := by
  obtain ⟨v, hv⟩ : ∃ v, u.giveUp i c why = v := ⟨_, rfl⟩
  rw [hv] at hafter ⊢
  rw [Calls.giveUp] at hv
  split at hv
  all_goals subst hv
  case h_1 _ hstage =>
    rw [hstage] at hlink
    cases hlink
  case h_2 _ hstage =>
    rw [hstage] at hlink
    cases hlink
  case h_3 h x _ hstage =>
    rw [hstage] at hlink
    cases hlink
    obtain ⟨_, -, -, hinUse⟩ := hk.sound.fits_stage hc hstage
    have hsound : ((u.setState i (.over (.error why))).deed i .abandon).traffic.Sound :=
      Traffic.sound_stroke hk.sound (.action (.caller i .abandon))
    have hholds : ((u.setState i (.over (.error why))).deed i .abandon).traffic.callers[i]? =
        some { c with stage := .holding h none } := callers_abandon hc hstage
    exact Traffic.not_mem_places_drop hsound hholds rfl (hinUse rfl)
  case h_4 => exact absurd hafter (hbefore _)

/-- **A call that fails takes its link with it.**  A step on which a hop comes to its end with an
error leaves the link in its hand in no place. -/
theorem not_mem_places_step (s : CallStep)
    (hafter : ((u.step s).hops i).state = .over (.error error)) :
    id ∉ (u.step s).traffic.places := by
  have hi := (List.getElem?_eq_some_iff.1 hc).1
  -- Another's step leaves the hop what it is.
  have hother {v : Calls} (h : v.hops i = u.hops i) :
      (v.hops i).state ≠ .over (.error error) := by
    rw [h]
    exact hbefore _
  cases s with
  | submit options limit request =>
    exact absurd hafter (hother (Function.update_of_ne (Nat.ne_of_lt hi) _ _))
  | goOn j answer =>
    by_cases hij : i = j
    · subst hij
      simp only [step, hc] at hafter ⊢
      exact not_mem_places_goOn hk hc hlink hbefore answer hafter
    · rw [step] at hafter
      split at hafter
      · exact absurd hafter (hother (hops_goOn_of_ne hi hij _ answer))
      · exact absurd hafter (hbefore _)
  | giveUp j why =>
    by_cases hij : i = j
    · subst hij
      simp only [step, hc] at hafter ⊢
      exact not_mem_places_giveUp hk hc hlink hbefore why hafter
    · rw [step] at hafter
      split at hafter
      · exact absurd hafter (hother (hops_giveUp_of_ne hij _ why))
      · exact absurd hafter (hbefore _)
  | _ => exact absurd hafter (hbefore _)

end Gone

/-- **Only clean links are idle.**  Let calls come and take turns in any way, and be given up
wherever they wait.  At every moment the record of each idle link is one whole exchange after the
other, and nothing is left over in its buffer.  And the link in the hand of a hop that comes to its
end with an error, by itself or because it was given up, is in no place ever after: on no shelf and
in nobody's hand.

The record of a link tells what has happened on its stream.  It is empty when the link is new.  From
then on, and from any moment on, as long as the link is in some place and the world leaves its
stream to the two ends, what comes to the record has been written, flushed and read there, and
nothing else has been written or read. -/
theorem run_clean (join : Url.Joining) (routing : Routing) (maxIdlePerHost idleTimeout : Nat)
    (network : Network) (steps : List CallStep) :
    let u := (start join routing maxIdlePerHost idleTimeout network).run steps
    (∀ link ∈ u.traffic.broker.pool.idle, link.buffer = [] ∧
      ∃ exchanges : List (Exchanged link.viaProxy link.maxBody),
        u.record link.id = exchanges.flatMap Exchanged.events) ∧
    (∀ (s : CallStep) (i : Nat) (c : Caller) (id : Nat) (error : CallError),
      u.traffic.callers[i]? = some c → c.stage.link? = some id →
      (∀ result, (u.hops i).state ≠ .over result) →
      ((u.step s).hops i).state = .over (.error error) →
      ∀ after, id ∉ ((u.step s).run after).traffic.places) ∧
    (∀ s id, u.traffic.broker.network.streams.size ≤ id → (u.step s).record id = []) ∧
    ∀ more id, id < u.traffic.broker.network.streams.size → id ∈ (u.run more).traffic.places →
      (∀ first network rest, more = first ++ .world network :: rest →
        network.stream id = (u.run first).traffic.broker.network.stream id) →
      ∃ passed, (u.run more).record id = u.record id ++ passed ∧
        (u.traffic.broker.network.stream id).Tells passed
          ((u.run more).traffic.broker.network.stream id) := by
  intro u
  have hk : u.Kept := (kept_start join routing maxIdlePerHost idleTimeout network).run steps
  refine ⟨fun link hlink => ⟨?_, hk.idle link hlink⟩,
    fun s i c id error hc hlink hbefore hafter after => ?_, fun s id hnew => ?_,
    fun more id hlt hid hworld => tells_run hk.sound hlt hid hworld⟩
  · obtain ⟨d, hd⟩ := Pool.mem_idle_iff.1 hlink
    have hrests := hk.sound.rests d link hd
    exact hrests.settled hrests.reusable
  · have hgone := not_mem_places_step hk hc hlink hbefore s hafter
    have hplace : id ∈ u.traffic.places := List.mem_append_right _
      (List.mem_filterMap.2 ⟨c, List.mem_of_getElem? hc, hlink⟩)
    have hlt : id < (u.step s).traffic.broker.network.streams.size :=
      (u.reaches_step s).lt_streams hk.sound (hk.sound.numbered id hplace)
    exact fun hlater =>
      hgone (((u.step s).reaches_run after).mem_places (hk.step s).sound hlt hlater)
  · exact (record_step_of_new hk.sound s hnew).trans (hk.blank id hnew)

/-! ### A call that gets a page -/

section Visited

open Traffic (pageRequest pageCaller pageHold pageLink pageBytes answeringEnd noContent heard)

/-- The hop goes on so often. -/
def goOns (n : Nat) : List CallStep := List.replicate n (.goOn 0 (.ok (.loopback 3128)))

/-- A call for the page, and how it goes on. -/
def visits (n : Nat) : List CallStep := .submit {} 0 pageRequest :: goOns n

/-- A far end that answers. -/
def pageWorld : Network := { dials := [.opens (answeringEnd noContent)] }

/-- What has come of the call. -/
def visited (n : Nat) : Calls := (start Url.join {} 8 90000 pageWorld).run (visits n)

theorem run_visited (m n : Nat) : (visited m).run (goOns n) = visited (m + n) := by
  have hvisits : visits (m + n) = visits m ++ goOns n :=
    congrArg (_ :: ·) List.replicate_append_replicate.symm
  rw [visited, visited, hvisits, run, run, run, ← List.foldl_append]

theorem step_visited (n : Nat) :
    (visited n).step (.goOn 0 (.ok (.loopback 3128))) = visited (n + 1) := run_visited n 1

/-- What a move stores, told without going on with the exchange. -/
def store (u : Calls) (i : Nat) (c : Caller) (h : Handle) (m : Exchange.Motion) : Calls :=
  { u.setState i ((u.hops i).state.after m.progress.outcome) with
    traffic := u.traffic.touch i c h m.progress
    record := Function.update u.record h.link.id (u.record h.link.id ++ m.passed) }

theorem step_move (hc : u.traffic.callers[i]? = some c) {h : Handle} {x : Exchange}
    (hstage : c.stage = .holding h (some x)) (hgoing : (u.hops i).state = .going)
    {m : Exchange.Motion} (hm : u.traffic.broker.move h x = m) (answer : Except IoError Address) :
    u.step (.goOn i answer) = u.store i c h m := by
  simp only [step, hc, goOn, hgoing, hstage]
  rw [hm]
  simp only [touch, stroke, setState, store, Traffic.stroke_move hc hstage, hm]

/-- The stream after the request has been written and the reply been read. -/
def pageEnd : Stream := { heard (answeringEnd noContent) with reads := [.hang] }

/-- The link with the reply in its buffer. -/
def pageHeld : Handle := { pageHold false with link := { pageLink false with buffer := noContent } }

/-- The reply comes. -/
def pageRead : Exchange.Motion :=
  ⟨⟨.waiting (.receiving .get (.head 0)) none, 0, pageHeld.link, pageEnd⟩, [.got noContent]⟩

/-- It is complete. -/
def pageDone : Exchange.Motion :=
  ⟨⟨.finished (.ok ⟨204, "No Content", "HTTP/1.1", [], []⟩), 0, pageLink true, pageEnd⟩, []⟩

theorem visited_nine : visited 9 = (visited 8).store 0
    (pageCaller (.holding (pageHold false) (some (.receiving .get (.head 0))))) (pageHold false)
    pageRead := by
  have hstream : (visited 8).traffic.broker.network.stream 0 = heard (answeringEnd noContent) := by
    decide +kernel
  have hnow : (visited 8).traffic.broker.network.now = 0 := by decide +kernel
  have hread : (heard (answeringEnd noContent)).read false 0
      (heard (answeringEnd noContent)).perRead = (.data noContent, 0, pageEnd) :=
    Stream.read_piece false 0 usualPerRead rfl (by decide) (by decide)
  have hwants : (Exchange.reader (pageHold false).link .get (.head 0)).advance =
      .wants (.start .get Reply.defaultMaxBody []) := Traffic.advance_start_nil _ _
  rw [← step_visited]
  refine step_move (by decide +kernel) rfl rfl ?_ _
  rw [Broker.move, hnow, show (pageHold false).link.id = 0 from rfl, hstream]
  exact Exchange.move_of_read hwants hread

theorem visited_ten : visited 10 = (visited 9).store 0
    (pageCaller (.holding pageHeld (some (.receiving .get (.head 0))))) pageHeld pageDone := by
  have hstream : (visited 9).traffic.broker.network.stream 0 = pageEnd := by
    rw [visited_nine]
    decide +kernel
  have hnow : (visited 9).traffic.broker.network.now = 0 := by
    rw [visited_nine]
    decide +kernel
  have hcomplete : (Exchange.reader pageHeld.link .get (.head 0)).advance =
      .complete ⟨204, "No Content", "HTTP/1.1", []⟩ [] true [] := Traffic.advance_noContent
  rw [← step_visited]
  refine step_move ?caller rfl ?going ?move _
  case caller =>
    rw [visited_nine]
    decide +kernel
  case going =>
    rw [visited_nine]
    rfl
  case move =>
    rw [Broker.move, hnow, show pageHeld.link.id = 0 from rfl, hstream]
    exact Exchange.move_of_complete hcomplete

theorem idle_visited :
    (visited 11).traffic.broker.pool.idle = [{ pageLink true with idleSince := 1 }] := by
  rw [← step_visited, visited_ten, visited_nine]
  decide +kernel

/-- What passes on the link. -/
def pageEvents : List LinkEvent :=
  [.began pageRequest, .wrote pageBytes, .flushed, .got noContent]

theorem record_visited : (visited 11).record 0 = pageEvents := by
  rw [← step_visited, visited_ten, visited_nine]
  decide +kernel

/-- The link is idle in the end, with one exchange on its record, and that is what has happened on
its stream since it was opened.  Given up while it writes, the call takes the link with it. -/
theorem run_clean_visited :
    (visited 11).traffic.broker.pool.idle = [{ pageLink true with idleSince := 1 }] ∧
    (∃ exchanges : List (Exchanged false Reply.defaultMaxBody),
      pageEvents = exchanges.flatMap Exchanged.events) ∧
    ((visited 5).traffic.broker.network.stream 0).Tells pageEvents
      ((visited 11).traffic.broker.network.stream 0) ∧
    (((visited 6).step (.giveUp 0 .timedOut)).hops 0).state = .over (.error .timedOut) ∧
    ∀ after, 0 ∉ (((visited 6).step (.giveUp 0 .timedOut)).run after).traffic.places := by
  have hlink : { pageLink true with idleSince := 1 } ∈ (visited 11).traffic.broker.pool.idle := by
    rw [idle_visited]
    exact List.mem_singleton_self _
  obtain ⟨-, exchanges, hexchanges⟩ :=
    (run_clean Url.join {} 8 90000 pageWorld (visits 11)).1 _ hlink
  have htold := (run_clean Url.join {} 8 90000 pageWorld (visits 5)).2.2.2 (goOns 6) 0
  rw [← visited, run_visited] at htold
  have hworld (first rest : List CallStep) (n : Network) :
      goOns 6 ≠ first ++ .world n :: rest := by
    intro heq
    have hmem : .world n ∈ goOns 6 := by rw [heq]; simp
    cases List.eq_of_mem_replicate hmem
  obtain ⟨passed, hpassed, htells⟩ := htold (by decide +kernel)
    (List.mem_append_left _ (List.mem_map.2 ⟨_, hlink, rfl⟩))
    fun first n rest heq => absurd heq (hworld first rest n)
  have hnew : (visited 5).record 0 = [] := by decide +kernel
  rw [hnew, List.nil_append, record_visited] at hpassed
  have hover : (((visited 6).step (.giveUp 0 .timedOut)).hops 0).state =
      .over (.error .timedOut) := rfl
  have hgone := (run_clean Url.join {} 8 90000 pageWorld
    (visits 6)).2.1 (.giveUp 0 .timedOut) 0
      (pageCaller (.holding (pageHold false) (some (.sending .get pageBytes)))) 0 .timedOut
      (by decide +kernel) rfl (fun _ heq => by cases heq) hover
  exact ⟨idle_visited, ⟨exchanges, record_visited.symm.trans hexchanges⟩, hpassed ▸ htells, hover,
    hgone⟩

end Visited

end HttpExchange.Calls
