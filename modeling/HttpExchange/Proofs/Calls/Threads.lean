import Mathlib.Data.List.Induction
import HttpExchange.Proofs.Calls.Basic
import HttpExchange.Proofs.Calls.Course

/-!
# The hops of a call, in any run

In a run of `Calls` hops of many calls take turns, and nothing in one of them tells to which call it
belongs.  The run itself does: behind every hop there is the `Thread` of those that led to it, each
of which has come to a reply at some time of the run (`Came`).  At the end of its thread a hop
stands where `Chain.perform` stands after these replies.

* `Thread.stands`, `Thread.hop` — what a thread is, told by `Chain.perform`;
* `Threaded.step`, `threaded_run` — every hop is at the end of a thread, and what has become of it
  is accounted for.
-/

namespace HttpExchange.Calls

variable {u v w : Calls} {steps more : List CallStep} {i : Nat} {c : Caller}

/-- What a hop has come to at some time of a run. -/
inductive Came (u : Calls) (steps : List CallStep) (i : Nat) : Except CallError Reply → Prop
  /-- Its exchange was over. -/
  | answered {earlier : List CallStep} {outcome : Except CallError Reply}
      (before : earlier <+: steps) (state : ((u.run earlier).hops i).state = .answered outcome) :
      Came u steps i outcome
  /-- It was refused a link. -/
  | refused {earlier : List CallStep} {c : Caller} {error : CallError}
      (before : earlier <+: steps) (caller : (u.run earlier).traffic.callers[i]? = some c)
      (stage : c.stage = .refused error) : Came u steps i (.error error)
  /-- It was given up. -/
  | givenUp {error : CallError} (given : .giveUp i error ∈ steps) : Came u steps i (.error error)

theorem Came.mono {outcome : Except CallError Reply} (h : Came u steps i outcome)
    (hmore : steps <+: more) : Came u more i outcome := by
  cases h with
  | answered before state => exact .answered (before.trans hmore) state
  | refused before caller stage => exact .refused (before.trans hmore) caller stage
  | givenUp given => exact .givenUp (hmore.subset given)

/-- The hops of a call that led on, with the replies that they came to, and where it stands. -/
inductive Thread (u : Calls) (steps : List CallStep) (asked : List (ClientOptions × Outgoing))
    (o : ClientOptions) (limit : Nat) (first : Outgoing) : List (Nat × Reply) → Chain → Prop
  | start (submitted : .submit o limit first ∈ steps) :
      Thread u steps asked o limit first [] { request := first }
  | next {hops : List (Nat × Reply)} {c d : Chain} {i : Nat} {reply : Reply}
      (before : Thread u steps asked o limit first hops c) (asks : asked[i]? = some (o, c.request))
      (came : Came u steps i (.ok reply)) (follows : c.onReply u.join o limit reply = .follow d) :
      Thread u steps asked o limit first (hops ++ [(i, reply)]) d

/-- What is known of a hop that has come to something. -/
def Accounted (u : Calls) (steps : List CallStep) (i : Nat) (ask : ClientOptions × Outgoing)
    (hop : Hop) : Prop :=
  match hop.state with
  | .replied reply => Came u steps i (.ok reply)
  | .over result => ∃ outcome, Came u steps i outcome ∧
      Chain.onOutcome u.join ask.1 hop.limit ⟨ask.2, hop.redirects⟩ outcome = .finished result
  | _ => True

/-- What stands behind the hops of a run. -/
structure Threaded (u : Calls) (steps : List CallStep) (v : Calls) : Prop where
  reads : v.join = u.join
  thread : ∀ i ask, v.traffic.asked[i]? = some ask → ∃ first hops,
    Thread u steps v.traffic.asked ask.1 (v.hops i).limit first hops
      ⟨ask.2, (v.hops i).redirects⟩
  accounted : ∀ i ask, v.traffic.asked[i]? = some ask → Accounted u steps i ask (v.hops i)

section Thread

variable {o : ClientOptions} {limit : Nat} {first : Outgoing} {hops : List (Nat × Reply)}
  {asked : List (ClientOptions × Outgoing)} {d : Chain}

theorem Thread.mono (h : Thread u steps asked o limit first hops d) (hmore : steps <+: more)
    (others : List (ClientOptions × Outgoing)) :
    Thread u more (asked ++ others) o limit first hops d := by
  induction h with
  | start submitted => exact .start (hmore.subset submitted)
  | next before asks came follows ih =>
    have hlt := (List.getElem?_eq_some_iff.1 asks).1
    exact ih.next ((List.getElem?_append_left hlt).trans asks) (came.mono hmore) follows

theorem Thread.submitted (h : Thread u steps asked o limit first hops d) :
    .submit o limit first ∈ steps := by
  induction h with
  | start submitted => exact submitted
  | next _ _ _ _ ih => exact ih

theorem Thread.redirects (h : Thread u steps asked o limit first hops d) :
    d.redirects = hops.length := by
  induction h with
  | start => rfl
  | next _ _ _ follows ih =>
    rw [(Chain.redirects_of_follow follows).2, ih, List.length_append]
    rfl

/-- What the exchanges of these hops came to. -/
def outcomes (hops : List (Nat × Reply)) : List (Except CallError Reply) := hops.map (.ok ·.2)

theorem length_outcomes (hops : List (Nat × Reply)) : (outcomes hops).length = hops.length :=
  List.length_map _

theorem outcomes_append (hops : List (Nat × Reply)) (i : Nat) (reply : Reply) :
    outcomes (hops ++ [(i, reply)]) = outcomes hops ++ [.ok reply] := List.map_append

theorem getElem?_outcomes_length (hops : List (Nat × Reply)) (outcome : Except CallError Reply) :
    (outcomes hops ++ [outcome])[hops.length]? = some outcome := by
  rw [← length_outcomes]
  exact List.getElem?_concat_length

/-- **At the end of its thread** a call stands where it would be by the replies on the way. -/
theorem Thread.stands (h : Thread u steps asked o limit first hops d) :
    Chain.Stands u.join o limit { request := first } (outcomes hops) hops.length d := by
  induction h with
  | start => exact .start
  | @next hops c d i reply before asks came follows ih =>
    rw [outcomes_append, List.length_append]
    exact (ih.append _).next (getElem?_outcomes_length hops _) follows

/-- Each reply on the way came to a hop that asked with the request before it. -/
theorem Thread.hop (h : Thread u steps asked o limit first hops d) {k j : Nat} {reply : Reply}
    (hk : hops[k]? = some (j, reply)) : Came u steps j (.ok reply) ∧
      ∃ c, Chain.Stands u.join o limit { request := first } (outcomes hops) k c ∧
        asked[j]? = some (o, c.request) := by
  induction h with
  | start => cases hk
  | @next hops c d i last before asks came follows ih =>
    rw [outcomes_append]
    obtain hold | ⟨rfl, heq⟩ := Traffic.getElem?_concat_cases hk
    · obtain ⟨hcame, e, he, hasks⟩ := ih hold
      exact ⟨hcame, e, he.append _, hasks⟩
    · cases heq
      exact ⟨came, c, before.stands.append _, asks⟩

end Thread

/-! ### Behind every hop -/

theorem Accounted.mono {ask : ClientOptions × Outgoing} {hop : Hop}
    (h : Accounted u steps i ask hop) (hmore : steps <+: more) : Accounted u more i ask hop := by
  rw [Accounted] at h ⊢
  split
  · next hstate =>
    rw [hstate] at h
    exact h.mono hmore
  · next hstate =>
    rw [hstate] at h
    obtain ⟨outcome, hcame, hends⟩ := h
    exact ⟨outcome, hcame.mono hmore, hends⟩
  · trivial

/-- Nothing has to be known of a hop that goes on or has just come to something. -/
theorem accounted_of_open {ask : ClientOptions × Outgoing} {hop : Hop}
    (hreplied : ∀ reply, hop.state ≠ .replied reply) (hover : ∀ result, hop.state ≠ .over result) :
    Accounted u steps i ask hop := by
  rw [Accounted]
  split
  · next hstate => exact absurd hstate (hreplied _)
  · next hstate => exact absurd hstate (hover _)
  · trivial

namespace Threaded

theorem mono (h : Threaded u steps v) (hmore : steps <+: more) : Threaded u more v := by
  refine ⟨h.reads, fun i ask hask => ?_, fun i ask hask => (h.accounted i ask hask).mono hmore⟩
  obtain ⟨first, hops, hthread⟩ := h.thread i ask hask
  have hsame := hthread.mono hmore []
  rw [List.append_nil] at hsame
  exact ⟨first, hops, hsame⟩

/-- Where nobody comes, only what the hops have come to has to be looked at. -/
theorem frame (h : Threaded u steps v) (hjoin : w.join = v.join)
    (hasked : w.traffic.asked = v.traffic.asked)
    (hhops : ∀ j, (w.hops j).limit = (v.hops j).limit ∧ (w.hops j).redirects = (v.hops j).redirects)
    (haccounted : ∀ j ask, v.traffic.asked[j]? = some ask → Accounted u steps j ask (w.hops j)) :
    Threaded u steps w := by
  refine ⟨hjoin.trans h.reads, fun j ask hask => ?_,
    fun j ask hask => haccounted j ask (hasked ▸ hask)⟩
  rw [hasked] at hask ⊢
  obtain ⟨hlimit, hredirects⟩ := hhops j
  rw [hlimit, hredirects]
  exact h.thread j ask hask

theorem deed (h : Threaded u steps v) (i : Nat) (d : Deed) : Threaded u steps (v.deed i d) :=
  h.frame rfl (v.traffic.asked_stroke rfl) (fun _ => ⟨rfl, rfl⟩) h.accounted

/-- A hop has come to something that is accounted for. -/
theorem setState (h : Threaded u steps v) (i : Nat) {state : HopState}
    (hnew : ∀ ask, v.traffic.asked[i]? = some ask →
      Accounted u steps i ask { v.hops i with state }) : Threaded u steps (v.setState i state) := by
  have hhops : (v.setState i state).hops = Function.update v.hops i { v.hops i with state } := rfl
  refine h.frame rfl rfl (fun j => ?_) fun j ask hask => ?_
  · rw [hhops]
    rcases eq_or_ne j i with rfl | hne
    · rw [Function.update_self]
      exact ⟨rfl, rfl⟩
    · rw [Function.update_of_ne hne]
      exact ⟨rfl, rfl⟩
  · rw [hhops]
    rcases eq_or_ne j i with rfl | hne
    · rw [Function.update_self]
      exact hnew ask hask
    · rw [Function.update_of_ne hne]
      exact h.accounted j ask hask

/-- A part of an exchange leaves the hop going, or with its outcome. -/
theorem touch (h : Threaded u steps v) (held : Handle) {s : Stroke} (hnumber : s.number? = some i)
    (hgoing : (v.hops i).state = .going) (m : Exchange.Motion) :
    Threaded u steps (v.touch i held s m) := by
  have hset : Threaded u steps (v.setState i ((v.hops i).state.after m.progress.outcome)) := by
    refine h.setState i fun ask _ => accounted_of_open (fun reply => ?_) fun result => ?_
    · show (v.hops i).state.after m.progress.outcome ≠ _
      rw [hgoing]
      cases m.progress.outcome <;> exact HopState.noConfusion
    · show (v.hops i).state.after m.progress.outcome ≠ _
      rw [hgoing]
      exact HopState.after_ne_over _ _
  exact hset.frame rfl (v.traffic.asked_stroke hnumber) (fun _ => ⟨rfl, rfl⟩) hset.accounted

/-- **Somebody comes**, at the end of a thread. -/
theorem enter (h : Threaded u steps v) {options : ClientOptions} {hop : Hop} {request : Outgoing}
    (hgoing : hop.state = .going)
    (hnew : ∃ first hops, Thread u steps v.traffic.asked options hop.limit first hops
      ⟨request, hop.redirects⟩) : Threaded u steps (v.enter options hop request) := by
  have hasked : (v.enter options hop request).traffic.asked =
      v.traffic.asked ++ [(options, request)] := v.traffic.asked_ask options request
  refine ⟨h.reads, fun j ask hask => ?_, fun j ask hask => ?_⟩
  · obtain ⟨hold, hsame⟩ | ⟨rfl, hsame⟩ := asked_enter hask
    · rw [hsame, hasked]
      obtain ⟨first, hops, hthread⟩ := h.thread j ask hold
      exact ⟨first, hops, hthread.mono List.prefix_rfl _⟩
    · rw [hsame, hasked]
      obtain ⟨first, hops, hthread⟩ := hnew
      exact ⟨first, hops, hthread.mono List.prefix_rfl _⟩
  · obtain ⟨hold, hsame⟩ | ⟨rfl, hsame⟩ := asked_enter hask
    · rw [hsame]
      exact h.accounted j ask hold
    · rw [hsame]
      refine accounted_of_open (fun reply => ?_) fun result => ?_
      all_goals
        rw [hgoing]
        exact HopState.noConfusion

/-- A hop that has its reply is over, or another follows it. -/
theorem follow (h : Threaded u steps v) (hc : v.traffic.callers[i]? = some c) {reply : Reply}
    (hstate : (v.hops i).state = .replied reply) : Threaded u steps (v.follow i c reply) := by
  have hask := asked_of_caller hc
  have hcame : Came u steps i (.ok reply) := by
    have haccounted := h.accounted i _ hask
    rw [Accounted, hstate] at haccounted
    exact haccounted
  rw [Calls.follow]
  split
  · next result hends =>
    refine h.setState i fun ask hother => ?_
    cases hother.symm.trans hask
    rw [h.reads] at hends
    exact ⟨.ok reply, hcame, hends⟩
  · next next hnext =>
    obtain ⟨first, hops, hthread⟩ := h.thread i _ hask
    have hset : Threaded u steps (v.setState i .followed) :=
      h.setState i fun _ _ => accounted_of_open (fun _ => HopState.noConfusion)
        fun _ => HopState.noConfusion
    rw [h.reads] at hnext
    exact hset.enter rfl ⟨first, _, hthread.next hask hcame hnext⟩

/-- **A hop goes on.** -/
theorem goOn (h : Threaded u steps v) (hc : v.traffic.callers[i]? = some c)
    (hanswered : ∀ outcome, (v.hops i).state = .answered outcome → Came u steps i outcome)
    (hrefused : ∀ error, c.stage = .refused error → Came u steps i (.error error))
    (answer : Except IoError Address) : Threaded u steps (v.goOn i c answer) := by
  have hends {error : CallError} (hcame : Came u steps i (.error error)) :
      Threaded u steps (v.setState i (.over (.error error))) :=
    h.setState i fun _ _ => ⟨.error error, hcame, rfl⟩
  rw [Calls.goOn]
  split
  case h_7 error _ hstage => exact hends (hrefused error hstage)
  case h_8 held hgoing _ => exact h.touch held rfl hgoing _
  case h_9 held x hgoing _ => exact h.touch held rfl hgoing _
  case h_10 error held hstate _ => exact (hends (hanswered _ hstate)).deed i _
  case h_11 reply held hstate _ =>
    have hreplied : Threaded u steps (v.setState i (.replied reply)) :=
      h.setState i fun _ _ => hanswered _ hstate
    exact hreplied.deed i _
  case h_12 reply hstate _ => exact h.follow hc hstate
  case h_13 => exact h
  all_goals exact h.deed i _

theorem giveUp (h : Threaded u steps v) {error : CallError} (hgiven : .giveUp i error ∈ steps) :
    Threaded u steps (v.giveUp i c error) := by
  have hends : Threaded u steps (v.setState i (.over (.error error))) :=
    h.setState i fun _ _ => ⟨.error error, .givenUp hgiven, rfl⟩
  rw [Calls.giveUp]
  split
  · exact hends.deed i _
  · exact hends.deed i _
  · exact (hends.deed i _).deed i _
  · exact h

/-- **Every step preserves it.** -/
theorem step (h : Threaded u steps (u.run steps)) (s : CallStep) :
    Threaded u (steps ++ [s]) ((u.run steps).step s) := by
  have hmore : steps <+: steps ++ [s] := List.prefix_append _ _
  have hlast : s ∈ steps ++ [s] := List.mem_append_right _ (List.mem_singleton_self s)
  have hmono := h.mono hmore
  cases s with
  | submit options limit request => exact hmono.enter rfl ⟨request, [], .start hlast⟩
  | goOn i answer =>
    rw [Calls.step]
    split
    · next hc =>
      exact hmono.goOn hc (fun _ hstate => .answered hmore hstate)
        (fun _ hstage => .refused hmore hc hstage) answer
    · exact hmono
  | giveUp i error =>
    rw [Calls.step]
    split
    · exact hmono.giveUp hlast
    · exact hmono
  | forget => exact hmono.frame rfl rfl (fun _ => ⟨rfl, rfl⟩) hmono.accounted
  | reset => exact hmono.frame rfl rfl (fun _ => ⟨rfl, rfl⟩) hmono.accounted
  | world network =>
    have hasked : ((u.run steps).traffic.step (.world network)).asked =
        (u.run steps).traffic.asked := by
      rw [Traffic.step]
      split <;> rfl
    exact hmono.frame rfl hasked (fun _ => ⟨rfl, rfl⟩) hmono.accounted

end Threaded

/-- **Every run preserves it.** -/
theorem threaded_run (join : Url.Joining) (routing : Routing) (maxIdlePerHost idleTimeout : Nat)
    (network : Network) (steps : List CallStep) :
    let u := start join routing maxIdlePerHost idleTimeout network
    Threaded u steps (u.run steps) := by
  intro u
  induction steps using List.reverseRecOn with
  | nil =>
    refine ⟨rfl, fun i ask hask => ?_, fun i ask hask => ?_⟩
    · cases hask
    · cases hask
  | append_singleton steps s ih =>
    rw [run_concat]
    exact ih.step s

end HttpExchange.Calls
