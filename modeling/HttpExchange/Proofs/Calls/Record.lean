import HttpExchange.Proofs.Calls.Basic
import HttpExchange.Proofs.Pool.Search

/-!
# What the record of a link tells

The record of a link is added to where an exchange begins and where it moves, by what the stream has
done then.  Everything else leaves the stream alone, or looks whether there is something to read and
takes nothing if the link is kept.  So as long as a link is in some place, what comes to its record
is all that happens on its stream.

* `Traffic.tells_quiet` — on the stream of such a link nothing happens but in an exchange;
* `makes` — what a step does (`Makes`);
* `tells_step`, `tells_run` — what a step and a run add to a record has happened on the stream.
-/

namespace HttpExchange

/-! ### Nothing happens on a stream -/

theorem Network.stream_connect {n : Network} {id : Nat} (hlt : id < n.streams.size)
    (d : Destination) (a : Address) : (n.connect d a).2.stream id = n.stream id := by
  rw [connect]
  split
  · rfl
  · rfl
  · simp [stream, Array.getD_eq_getD_getElem?, Array.getElem?_push, Nat.ne_of_lt hlt]

/-- Looking at a link that is kept takes nothing. -/
theorem Link.tells_probe {now : Nat} {link : Link} {s : Stream}
    (h : (link.probe now s).1 = false) : s.Tells [] (link.probe now s).2.2 := by
  have htells := s.tells_read false now s.perRead
  rw [probe] at h ⊢
  split at h
  · cases h
  · next hbuffer =>
    rw [if_neg hbuffer]
    generalize s.read false now s.perRead = reading at h htells ⊢
    obtain ⟨reading, _, _⟩ := reading
    cases reading with
    | waiting => exact htells.silent rfl rfl
    | _ => cases h

theorem Network.tells_probe (n : Network) (link : Link) {id : Nat}
    (h : link.id = id → (n.probe link).1 = false) :
    (n.stream id).Tells [] ((n.probe link).2.2.stream id) := by
  rcases eq_or_ne link.id id with rfl | hne
  · have htells : (n.stream link.id).Tells [] (link.probe n.now (n.stream link.id)).2.2 :=
      Link.tells_probe (h rfl)
    rw [probe_snd_snd]
    obtain hset | hsame := n.stream_withStream link.id (link.probe n.now (n.stream link.id)).2.2
    · rw [hset]
      exact htells
    · rw [hsame]
      exact .refl _
  · rw [(n.sameBut_probe link).stream id fun hid => hne (List.mem_singleton.1 hid).symm]
    exact .refl _

/-- A stroke that is no part of an exchange, shuts no link down and leaves the world as it is. -/
def Stroke.isQuiet : Stroke → Bool
  | .action (.caller _ (.send _)) => false
  | .action (.caller _ .resume) => false
  | .action (.caller _ .discard) => false
  | .action (.world _) => false
  | .action _ => true
  | .begin _ _ => false
  | .move _ => false

namespace Traffic

variable {t : Traffic} {i id : Nat} {c : Caller}

theorem broker_connect (t : Traffic) (i : Nat) (c : Caller) (ticket : Nat) (attempt : Attempt) :
    (t.connect i c ticket attempt).broker = (t.broker.connect attempt).2 := by
  rw [connect]
  split
  all_goals
    next heq =>
    rw [heq]
    rfl

/-- A link that is found dead is in no place. -/
theorem not_mem_places_probe (hs : t.Sound) (hc : t.callers[i]? = some c) {route : Route}
    {h : Handle} (hstage : c.stage = .probing route h)
    (hstale : (t.broker.network.probe h.link).1 = true) :
    h.link.id ∉ (t.stroke (.action (.caller i .probe))).places := by
  have hleft : (t.stroke (.action (.caller i .probe))).callers[i]? =
      some { c with stage := .choosing route } := by
    simp only [stroke, step, hc, act, hstage, probe, hstale, if_true]
    exact getElem?_turn hc _
  refine not_mem_places_of_left hs hc (by rw [hstage]; rfl) rfl hleft rfl fun _ heq => ?_
  cases heq

/-- **On the stream of a link that is in some place nothing happens** but in an exchange. -/
theorem tells_quiet (hs : t.Sound) {s : Stroke} (hquiet : s.isQuiet = true)
    (hlt : id < t.broker.network.streams.size) (hid : id ∈ (t.stroke s).places) :
    (t.broker.network.stream id).Tells [] ((t.stroke s).broker.network.stream id) := by
  cases s with
  | begin i request => cases hquiet
  | move i => cases hquiet
  | action action =>
    cases action with
    | ask options request =>
      rw [stroke, step, ask]
      split <;> exact .refl _
    | forget => exact .refl _
    | reset => exact .refl _
    | world network => cases hquiet
    | caller i deed =>
      cases hc : t.callers[i]? with
      | none =>
        rw [stroke_of_none rfl hc]
        exact .refl _
      | some c =>
        have hact : t.stroke (.action (.caller i deed)) = t.act i c deed := by
          simp only [stroke, step, hc]
        rw [hact, act.eq_def]
        split
        case h_2 route h hstage =>
          refine t.broker.network.tells_probe h.link fun heq => ?_
          cases hstale : (t.broker.network.probe h.link).1 with
          | false => rfl
          | true => exact absurd (heq ▸ hid) (not_mem_places_probe hs hc hstage hstale)
        case h_4 result route hstage =>
          obtain ⟨error, heq⟩ | ⟨address, pool, -, -, -, heq⟩ := t.answer_cases i c route result
          all_goals
            rw [heq]
            exact .refl _
        case h_6 ticket attempt hstage =>
          have hsame := Network.stream_connect hlt attempt.route.destination attempt.address
          rw [broker_connect]
          exact hsame ▸ .refl _
        case h_9 => cases hquiet
        case h_10 => cases hquiet
        case h_13 => cases hquiet
        all_goals exact .refl _

/-- **Nor in many such strokes.** -/
theorem tells_quiets (hs : t.Sound) {list : List Stroke}
    (hquiet : ∀ s ∈ list, s.isQuiet = true) (hlt : id < t.broker.network.streams.size)
    (hid : id ∈ (t.strokes list).places) :
    (t.broker.network.stream id).Tells [] ((t.strokes list).broker.network.stream id) := by
  induction list generalizing t with
  | nil => exact .refl _
  | cons s rest ih =>
    obtain ⟨hfirst, hrest⟩ := List.forall_mem_cons.1 hquiet
    have hsound := sound_stroke hs s
    have hlater := (Reaches.one t s).lt_streams hs hlt
    -- A link that is in some place in the end was in one all the time.
    have hplace : id ∈ (t.stroke s).places := Reaches.mem_places ⟨rest, rfl⟩ hsound hlater hid
    exact (tells_quiet hs hfirst hlt hplace).trans (ih hsound hrest hlater hid)

end Traffic

namespace Calls

variable {u v : Calls} {i id : Nat} {c : Caller}

/-! ### What a step does -/

/-- What a step does: strokes that are no part of an exchange, the beginning of one or a move of
one, or the world goes on. -/
inductive Makes (u : Calls) : CallStep → Calls → Prop
  | quiet {s : CallStep} {v : Calls} (list : List Stroke)
      (quiet : ∀ stroke ∈ list, stroke.isQuiet = true)
      (traffic : v.traffic = u.traffic.strokes list) (record : v.record = u.record) : Makes u s v
  | began {s : CallStep} {i : Nat} {c : Caller} {h : Handle}
      (caller : u.traffic.callers[i]? = some c) (stage : c.stage = .holding h none) :
      Makes u s (u.touch i h (.begin i c.request) (u.traffic.broker.begun h c.request))
  | moved {s : CallStep} {i : Nat} {c : Caller} {h : Handle} {x : Exchange}
      (caller : u.traffic.callers[i]? = some c) (stage : c.stage = .holding h (some x)) :
      Makes u s (u.touch i h (.move i) (u.traffic.broker.move h x))
  | world (network : Network) : Makes u (.world network) (u.stroke (.action (.world network)))

namespace Makes

variable {s : CallStep}

theorem nothing (htraffic : v.traffic = u.traffic) (hrecord : v.record = u.record) : u.Makes s v :=
  .quiet [] (List.forall_mem_nil _) htraffic hrecord

theorem one (stroke : Stroke) (hquiet : stroke.isQuiet = true)
    (htraffic : v.traffic = u.traffic.stroke stroke) (hrecord : v.record = u.record) :
    u.Makes s v :=
  .quiet [stroke] (List.forall_mem_singleton.2 hquiet) htraffic hrecord

theorem reaches (h : u.Makes s v) : u.traffic.Reaches v.traffic := by
  cases h with
  | quiet list _ htraffic => exact ⟨list, htraffic.symm⟩
  | @began _ i c => exact .one u.traffic (.begin i c.request)
  | @moved _ i => exact .one u.traffic (.move i)
  | world network => exact .one u.traffic (.action (.world network))

end Makes

theorem makes_follow (u : Calls) (s : CallStep) (i : Nat) (c : Caller) (reply : Reply) :
    u.Makes s (u.follow i c reply) := by
  rw [follow]
  split
  · exact .nothing rfl rfl
  · exact .one (.action (.ask _ _)) rfl rfl rfl

theorem makes_goOn (hc : u.traffic.callers[i]? = some c) (s : CallStep)
    (answer : Except IoError Address) : u.Makes s (u.goOn i c answer) := by
  have hdeed {v : Calls} (d : Deed) (hquiet : (Stroke.action (.caller i d)).isQuiet = true)
      (htraffic : v.traffic = u.traffic) (hrecord : v.record = u.record) :
      u.Makes s (v.deed i d) :=
    .one _ hquiet (congrArg (·.stroke (.action (.caller i d))) htraffic) hrecord
  rw [goOn]
  split
  case h_7 => exact .nothing rfl rfl
  case h_8 hstage => exact .began hc hstage
  case h_9 hstage => exact .moved hc hstage
  case h_12 => exact u.makes_follow s i c _
  case h_13 => exact .nothing rfl rfl
  all_goals exact hdeed _ rfl rfl rfl

theorem makes_giveUp (u : Calls) (s : CallStep) (i : Nat) (c : Caller) (error : CallError) :
    u.Makes s (u.giveUp i c error) := by
  rw [giveUp]
  split
  · exact .one (.action (.caller i .cancel)) rfl rfl rfl
  · exact .one (.action (.caller i .cancel)) rfl rfl rfl
  · refine .quiet [.action (.caller i .abandon), .action (.caller i .drop)] ?_ rfl rfl
    exact List.forall_mem_cons.2 ⟨rfl, List.forall_mem_singleton.2 rfl⟩
  · exact .nothing rfl rfl

/-- **What a step does.** -/
theorem makes (u : Calls) (s : CallStep) : u.Makes s (u.step s) := by
  cases s with
  | submit options limit request => exact .one (.action (.ask _ _)) rfl rfl rfl
  | goOn i answer =>
    rw [step]
    split
    · next hc => exact makes_goOn hc _ answer
    · exact .nothing rfl rfl
  | giveUp i error =>
    rw [step]
    split
    · exact u.makes_giveUp _ i _ error
    · exact .nothing rfl rfl
  | forget => exact .one (.action .forget) rfl rfl rfl
  | reset => exact .one (.action .reset) rfl rfl rfl
  | world network => exact .world network

theorem reaches_step (u : Calls) (s : CallStep) : u.traffic.Reaches (u.step s).traffic :=
  (u.makes s).reaches

theorem reaches_run (u : Calls) (steps : List CallStep) :
    u.traffic.Reaches (u.run steps).traffic := by
  induction steps generalizing u with
  | nil => exact .refl _
  | cons s rest ih => exact (u.reaches_step s).trans (ih (u.step s))

/-! ### The record and the stream -/

section Tells

variable (hs : u.traffic.Sound)
include hs

/-- What passes in an exchange comes to the record of its link, and happens on its stream. -/
theorem tells_touch (hc : u.traffic.callers[i]? = some c) {h : Handle} {x : Option Exchange}
    (hstage : c.stage = .holding h x) {s : Stroke} {m : Exchange.Motion}
    (hstroke : u.traffic.stroke s = u.traffic.touch i c h m.progress)
    (hleaves : Exchange.Leaves h.link m.progress)
    (htells : (u.traffic.broker.network.stream h.link.id).Tells m.passed m.progress.stream)
    (id : Nat) :
    ∃ passed, (u.touch i h s m).record id = u.record id ++ passed ∧
      (u.traffic.broker.network.stream id).Tells passed
        ((u.touch i h s m).traffic.broker.network.stream id) := by
  have htraffic : (u.touch i h s m).traffic = u.traffic.touch i c h m.progress := hstroke
  have hrecord : (u.touch i h s m).record =
      Function.update u.record h.link.id (u.record h.link.id ++ m.passed) := rfl
  rw [htraffic, hrecord]
  rcases eq_or_ne id h.link.id with rfl | hne
  · refine ⟨m.passed, Function.update_self _ _ _, ?_⟩
    have hstream := Traffic.stream_touch hs hc hstage hleaves
    rw [hleaves.id_eq] at hstream
    rw [hstream]
    exact htells
  · refine ⟨[], (Function.update_of_ne hne _ _).trans (List.append_nil _).symm, ?_⟩
    have hsame : (u.traffic.touch i c h m.progress).broker.network.stream id =
        u.traffic.broker.network.stream id := by
      refine (Network.sameBut_withStream _ m.progress.link.id m.progress.stream).stream id ?_
      rw [hleaves.id_eq]
      exact fun hid => hne (List.mem_singleton.1 hid)
    rw [hsame]
    exact .refl _

/-- **What a step adds to a record has happened on the stream**, and nothing else has. -/
theorem tells_step (s : CallStep) (hlt : id < u.traffic.broker.network.streams.size)
    (hid : id ∈ (u.step s).traffic.places)
    (hworld : ∀ network, s = .world network →
      network.stream id = u.traffic.broker.network.stream id) :
    ∃ passed, (u.step s).record id = u.record id ++ passed ∧
      (u.traffic.broker.network.stream id).Tells passed
        ((u.step s).traffic.broker.network.stream id) := by
  have hmakes := u.makes s
  generalize u.step s = v at hmakes hid ⊢
  cases hmakes with
  | quiet list hquiet htraffic hrecord =>
    rw [htraffic] at hid
    rw [htraffic, hrecord]
    exact ⟨[], (List.append_nil _).symm, Traffic.tells_quiets hs hquiet hlt hid⟩
  | @began _ i c h hc hstage =>
    refine tells_touch hs hc hstage (Traffic.stroke_begin hc hstage c.request)
      (Link.begun_leaves _ _ _ _) ?_ id
    rw [Broker.begun, Link.begun]
    split <;> exact ⟨(List.append_nil _).symm, Nat.le_refl _, rfl⟩
  | @moved _ i c h x hc hstage =>
    obtain ⟨_, -, -, hinUse⟩ := hs.fits_stage hc hstage
    exact tells_touch hs hc hstage (Traffic.stroke_move hc hstage)
      (Exchange.move_leaves _ (hinUse rfl) _ _) (Exchange.move_tells _ _ _ _) id
  | world network =>
    have hsame : (u.traffic.step (.world network)).broker.network.stream id =
        u.traffic.broker.network.stream id := by
      rw [Traffic.step]
      split
      · exact hworld network rfl
      · rfl
    refine ⟨[], (List.append_nil _).symm, ?_⟩
    show (u.traffic.broker.network.stream id).Tells []
      ((u.traffic.step (.world network)).broker.network.stream id)
    rw [hsame]
    exact .refl _

/-- **So it is in a run**, in which the world leaves the stream to the two ends. -/
theorem tells_run {steps : List CallStep} (hlt : id < u.traffic.broker.network.streams.size)
    (hid : id ∈ (u.run steps).traffic.places)
    (hworld : ∀ first network rest, steps = first ++ .world network :: rest →
      network.stream id = (u.run first).traffic.broker.network.stream id) :
    ∃ passed, (u.run steps).record id = u.record id ++ passed ∧
      (u.traffic.broker.network.stream id).Tells passed
        ((u.run steps).traffic.broker.network.stream id) := by
  induction steps generalizing u with
  | nil => exact ⟨[], (List.append_nil _).symm, .refl _⟩
  | cons s rest ih =>
    have hsound : (u.step s).traffic.Sound := (u.reaches_step s).sound hs
    have hlater : id < (u.step s).traffic.broker.network.streams.size :=
      (u.reaches_step s).lt_streams hs hlt
    have hplace : id ∈ (u.step s).traffic.places :=
      ((u.step s).reaches_run rest).mem_places hsound hlater hid
    obtain ⟨passed, hpassed, htells⟩ := tells_step hs s hlt hplace fun network heq =>
      hworld [] network rest (by rw [heq]; rfl)
    obtain ⟨others, hothers, htold⟩ := ih hsound hlater hid fun before network after heq =>
      hworld (s :: before) network after (by rw [heq]; rfl)
    refine ⟨passed ++ others, ?_, htells.trans htold⟩
    rw [run_cons, hothers, hpassed, List.append_assoc]

/-- A link that is new after a step has nothing on its record yet. -/
theorem record_step_of_new (s : CallStep) (hnew : u.traffic.broker.network.streams.size ≤ id) :
    (u.step s).record id = u.record id := by
  have hother {i : Nat} {c : Caller} {h : Handle} {x : Option Exchange}
      (hc : u.traffic.callers[i]? = some c) (hstage : c.stage = .holding h x) : id ≠ h.link.id := by
    have hplace := Traffic.mem_places_of_handle hc (by rw [hstage]; rfl)
    exact (Nat.ne_of_lt (Nat.lt_of_lt_of_le (hs.numbered _ hplace) hnew)).symm
  have hmakes := u.makes s
  generalize u.step s = v at hmakes ⊢
  cases hmakes with
  | quiet list _ _ hrecord => rw [hrecord]
  | began hc hstage => exact Function.update_of_ne (hother hc hstage) _ _
  | moved hc hstage => exact Function.update_of_ne (hother hc hstage) _ _
  | world network => rfl

end Tells

end Calls

end HttpExchange
