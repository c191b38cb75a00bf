import HttpExchange.Proofs.Traffic.Strokes

/-!
# What a link or an exchange fails for

A call fails for too many redirects only by following them.  Nothing that is done to get a link, and
nothing that happens in an exchange, fails so: every failure there is of another kind, whatever the
resolver, the connector and the far end do.

* `Exchange.unlimited_run`, `Exchange.unlimited_move` — what an exchange fails for;
* `Traffic.refused_stroke` — what a caller is refused a link for.
-/

namespace HttpExchange

/-- The limit on redirects that a call has met. -/
def CallError.limit? : CallError → Option Nat
  | tooManyRedirects limit => some limit
  | _ => none

/-- Whatever it fails for, it is not for too many redirects. -/
def Unlimited {α : Type} (x : Except CallError α) : Prop :=
  ∀ error, x = .error error → error.limit? = none

section Unlimited

variable {α β : Type}

theorem unlimited_ok (a : α) : Unlimited (.ok a) := by
  intro error h
  cases h

theorem unlimited_error {error : CallError} (h : error.limit? = none) :
    Unlimited (.error error : Except CallError α) := by
  intro other heq
  cases heq
  exact h

theorem Unlimited.bind {x : Except CallError α} {f : α → Except CallError β} (hx : Unlimited x)
    (hf : ∀ a, Unlimited (f a)) : Unlimited (x >>= f) := by
  cases x with
  | error error => exact unlimited_error (hx error rfl)
  | ok a => exact hf a

end Unlimited

/-! ### Where a request goes, and what is written of it -/

namespace Outgoing

theorem unlimited_host (r : Outgoing) : Unlimited r.host := by
  rw [host]
  split
  · exact unlimited_ok _
  · exact unlimited_error rfl

theorem unlimited_port (r : Outgoing) : Unlimited r.port := by
  rw [port]
  split
  · exact unlimited_ok _
  · exact unlimited_error rfl

theorem unlimited_encode? (viaProxy : Bool) (r : Outgoing) : Unlimited (r.encode? viaProxy) := by
  have hauthority : Unlimited r.authority := r.unlimited_host.bind fun _ => unlimited_ok _
  have hhost : Unlimited r.hostField := by
    rw [hostField]
    split
    · exact unlimited_ok _
    · exact hauthority
  exact hhost.bind fun _ => unlimited_ok _

end Outgoing

theorem Routing.unlimited_route (m : Routing) (o : ClientOptions) (r : Outgoing) :
    Unlimited (m.route o r) := by
  have horigin : Unlimited (toOrigin r) :=
    r.unlimited_host.bind fun _ => r.unlimited_port.bind fun _ => unlimited_ok _
  have hproxy (proxy : Url) : Unlimited (toProxy proxy) := by
    rw [toProxy]
    split
    · exact unlimited_error rfl
    · exact unlimited_error rfl
    · exact unlimited_ok _
  have htarget : Unlimited (m.target o r) := by
    rw [target]
    split
    · split
      · split
        · exact hproxy _
        · exact unlimited_error rfl
      · exact horigin
    · exact horigin
  rw [route]
  split
  · split
    · next error herror => exact unlimited_error (htarget error herror)
    · split
      · exact unlimited_ok _
      · exact unlimited_error rfl
  · exact unlimited_error rfl

/-! ### The exchange -/

namespace Reply.Reader

/-- A move of a reader that fails finds a fault in the reply. -/
theorem exists_fault_of_step {r : Reader} {error : CallError} {buffer : Bytes}
    (h : r.step = .stop (.failed error buffer)) : ∃ fault, error = .badReply fault := by
  simp only [step, afterHead, fail] at h
  repeat' split at h
  all_goals first | (cases h; exact ⟨_, rfl⟩) | cases h

theorem exists_fault_of_advance {r : Reader} {error : CallError} {buffer : Bytes}
    (h : r.advance = .failed error buffer) : ∃ fault, error = .badReply fault := by
  fun_induction advance r with
  | case1 r s hstep ih => exact ih h
  | case2 r verdict hstep => exact exists_fault_of_step (h ▸ hstep)

theorem limit?_of_ended {r : Reader} {error : CallError} {buffer : Bytes}
    (h : r.ended = .failed error buffer) : error.limit? = none := by
  rw [ended] at h
  split at h
  · cases h
  · cases h
    rfl

end Reply.Reader

namespace Exchange

/-- An exchange that has stopped like this has not failed for too many redirects. -/
inductive Outcome.Unlimited : Outcome → Prop
  | finished {result : Except CallError Reply} (h : HttpExchange.Unlimited result) :
      Unlimited (.finished result)
  | waiting (x : Exchange) (wake : Option Nat) : Unlimited (.waiting x wake)

theorem unlimited_receive (patient : Bool) (now : Nat) (link : Link) (r : Reply.Reader)
    (s : Stream) : (receive patient now link r s).outcome.Unlimited := by
  fun_induction receive patient now link r s with
  | case1 => exact .finished (unlimited_ok _)
  | case2 _ _ _ _ _ hfailed =>
    obtain ⟨fault, rfl⟩ := Reply.Reader.exists_fault_of_advance hfailed
    exact .finished (unlimited_error rfl)
  | case3 _ _ _ _ _ _ _ _ _ ih => exact ih
  | case4 => exact .finished (unlimited_error rfl)
  | case5 => exact .waiting _ _
  | case6 => exact .finished (unlimited_ok _)
  | case7 _ _ _ _ _ _ _ _ _ _ hended =>
    exact .finished (unlimited_error (Reply.Reader.limit?_of_ended hended))
  | case8 => exact .finished (unlimited_error rfl)

/-- **What an exchange fails for.** -/
theorem unlimited_run (patient : Bool) (now : Nat) (link : Link) (s : Stream) (x : Exchange) :
    (x.run patient now link s).outcome.Unlimited := by
  cases x with
  | sending method rest =>
    rw [run]
    split
    · exact .finished (unlimited_error rfl)
    · exact .waiting _ _
    · split
      · exact .finished (unlimited_error rfl)
      · exact unlimited_receive _ _ _ _ _
  | receiving method stage => exact unlimited_receive _ _ _ _ _

/-- One operation of an exchange lets it wait, or is all that is left of it. -/
theorem unlimited_move (now : Nat) (link : Link) (s : Stream) (x : Exchange) :
    (x.move now link s).progress.outcome.Unlimited := by
  obtain ⟨-, hrun⟩ | ⟨y, hwaits, -⟩ := run_move now link s x
  · rw [hrun]
    exact unlimited_run false now link s x
  · rw [hwaits]
    exact .waiting y none

theorem unlimited_begun (now : Nat) (link : Link) (request : Outgoing) (s : Stream) :
    (link.begun now request s).progress.outcome.Unlimited := by
  rw [Link.begun, Link.begin]
  cases hencode : request.encode? link.viaProxy with
  | error error =>
    exact .finished (unlimited_error (request.unlimited_encode? _ error hencode))
  | ok bytes => exact .waiting _ _

end Exchange

/-! ### Being refused a link -/

namespace Stage

/-- Why a caller was refused a link. -/
def refusal? : Stage → Option CallError
  | refused error => some error
  | _ => none

theorem refusal?_afterTake (route : Route) (generation : Nat) (found : Option Link) :
    (afterTake route generation found).refusal? = none := by
  cases found <;> rfl

theorem refusal?_afterLocate (route : Route) (found : Option Address) :
    (afterLocate route found).refusal? = none := by
  cases found <;> rfl

end Stage

namespace Traffic

variable {t : Traffic} {i j : Nat} {c d : Caller} {error : CallError}

/-- Only the one who turns gets to another stage. -/
theorem stage_of_turn {stage : Stage} (h : (t.turn i c stage).callers[j]? = some d) :
    t.callers[j]? = some d ∨ d.stage = stage := by
  rw [turn, List.getElem?_set] at h
  split at h
  · split at h
    · cases h
      exact .inr rfl
    · cases h
  · exact .inl h

/-- A deed refuses a caller a link only for what the resolver or the connector says. -/
theorem refused_act (deed : Deed) (hd : (t.act i c deed).callers[j]? = some d)
    (hrefused : d.stage.refusal? = some error) :
    t.callers[j]? = some d ∨ error.limit? = none := by
  have hturn {u : Traffic} {stage : Stage} (hu : (u.turn i c stage).callers[j]? = some d) :
      u.callers[j]? = some d ∨ stage.refusal? = some error := by
    refine (stage_of_turn hu).imp_right fun heq => ?_
    rw [← heq]
    exact hrefused
  -- At any other stage nobody was refused anything.
  have hother {u : Traffic} {stage : Stage} (hu : (u.turn i c stage).callers[j]? = some d)
      (hnone : stage.refusal? = none) : u.callers[j]? = some d := by
    refine (hturn hu).resolve_right fun hsome => ?_
    rw [hnone] at hsome
    cases hsome
  rw [act.eq_def] at hd
  split at hd
  case h_1 => exact .inl (hother hd (Stage.refusal?_afterTake _ _ _))
  case h_2 route h _ =>
    refine .inl (hother hd ?_)
    show (if (t.broker.network.probe h.link).1 then Stage.choosing route
      else .holding { h with link := _ } none).refusal? = none
    split <;> rfl
  case h_3 => exact .inl (hother hd (Stage.refusal?_afterLocate _ _))
  case h_4 result route _ =>
    cases result with
    | error failure =>
      refine (hturn hd).imp_right fun heq => ?_
      cases heq
      rfl
    | ok address => exact .inl (hother hd rfl)
  case h_6 ticket attempt _ =>
    rw [connect, Broker.connect] at hd
    generalize t.broker.network.connect attempt.route.destination attempt.address = result at hd
    obtain ⟨failure | id, network⟩ := result
    · refine (hturn hd).imp_right fun heq => ?_
      cases heq
      rfl
    · exact .inl (hother hd rfl)
  case h_14 => exact .inl hd
  all_goals exact .inl (hother hd rfl)

/-- **What a caller is refused a link for**: what it was refused one for before, or something other
than the redirects. -/
theorem refused_stroke (s : Stroke) (hd : (t.stroke s).callers[j]? = some d)
    (hrefused : d.stage.refusal? = some error) :
    t.callers[j]? = some d ∨ error.limit? = none := by
  have htouch {i : Nat} {c : Caller} {h : Handle} {p : Exchange.Progress}
      (hu : (t.touch i c h p).callers[j]? = some d) : t.callers[j]? = some d := by
    refine (stage_of_turn hu).resolve_right fun heq => ?_
    rw [heq] at hrefused
    cases hrefused
  cases s with
  | action action =>
    cases action with
    | ask options request =>
      rw [stroke, step, ask] at hd
      split at hd
      · next hroute =>
        refine (getElem?_concat_cases hd).imp_right ?_
        rintro ⟨-, rfl⟩
        cases hrefused
        exact t.broker.routing.unlimited_route options request _ hroute
      · refine (getElem?_concat_cases hd).imp_right ?_
        rintro ⟨-, rfl⟩
        cases hrefused
    | caller i deed =>
      rw [stroke, step] at hd
      split at hd
      · exact refused_act deed hd hrefused
      · exact .inl hd
    | forget => exact .inl hd
    | reset => exact .inl hd
    | world network =>
      rw [stroke, step] at hd
      split at hd <;> exact .inl hd
  | begin i request =>
    rw [stroke] at hd
    repeat' split at hd
    · exact .inl (htouch hd)
    · exact .inl hd
    · exact .inl hd
  | move i =>
    rw [stroke] at hd
    repeat' split at hd
    · exact .inl (htouch hd)
    · exact .inl hd
    · exact .inl hd

end Traffic

end HttpExchange
