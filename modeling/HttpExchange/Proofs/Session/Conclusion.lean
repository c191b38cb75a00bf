import HttpExchange.Proofs.Session.Dispatch

/-!
# How serving a connection ends

A session reads until it has an answer to what it was sent, or until its stream has no more bytes.
Then it delivers the one response that the answer stands for, and from there on it does not read.

* `run_of_reads` — reading leads to the phase of the answer, with nothing done to the stream but
  reading, or to the end of the session;
* `run_of_writing` — a delivery leads to the end of the session;
* `readsNoMore_of_not_reads` — a session that has done with reading takes no notice of what could be
  read;
* `serve_reaches` — the two places that serving a connection comes to;
* `serve_concludes` — what is written, flushed, shut down and reported on a connection, and when it
  is closed.
-/

namespace HttpExchange

namespace Session

/-! ### What an answer comes to -/

/-- A stock reply refuses the request or its body. -/
theorem status_of_stock {limits : ServingLimits} {bytes : Bytes} {status : Status}
    (h : answerTo limits bytes = .stock status) :
    status = .badRequest ∨ status = .payloadTooLarge := by
  simp only [answerTo] at h
  repeat' split at h
  all_goals first | (cases h; simp) | cases h

/-- What is reported when the stream has no more bytes and there is no answer yet: nothing where not
one byte has come. -/
def readNotice? (s : Stream) : Option Notice :=
  match s.ending with
  | .ended => if s.delivered = [] then none else some .closedByPeer
  | .failed error => some (.readFailed error)
  | .never => none

/-- What is reported of a delivery, of which all has been taken or only a part. -/
def writeNotice? (s : Stream) (sent wire : Bytes) : Option Notice :=
  (if sent = wire then s.flushError else s.obstacle?.bind WriteStep.fault?).map .writeFailed

/-! ### One move after the other -/

section Run

variable {limits : ServingLimits} {handler : Handler} {now clock : Nat} {c d : Session}
  {s t : Stream}

theorem run_of_moved (h : step limits handler now c s = .moved clock d t) :
    run limits handler now c s = run limits handler clock d t := by
  rw [run]
  split
  · next heq => cases h.symm.trans heq
  · next heq =>
    cases h.symm.trans heq
    rfl

theorem run_of_stalled (h : step limits handler now c s = .stalled d t) :
    run limits handler now c s = (d, t) := by
  rw [run]
  split
  · next heq =>
    cases h.symm.trans heq
    rfl
  · next heq => cases h.symm.trans heq

theorem run_of_closed (h : c.phase = .closed) : run limits handler now c s = (c, s) :=
  run_of_stalled (by rw [step, h])

/-! ### Reading -/

/-- What becomes of a session that still reads when its stream has no more bytes. -/
def cutOff (c : Session) : Stream.Ending → Session
  | .ended => if c.phase.isFresh then c.goto .closed else c.closeWith .closedByPeer
  | .failed error => c.closeWith (.readFailed error)
  | .never => c

theorem closed_cutOff {ending : Stream.Ending} (h : ending ≠ .never) :
    (c.cutOff ending).phase = .closed := by
  cases ending with
  | ended =>
    rw [cutOff]
    split <;> rfl
  | failed error => rfl
  | never => exact absurd rfl h

theorem step_of_reads (h : c.phase.reads = true) :
    step limits handler now c s = readStep limits now c s := by
  rw [step]
  cases hphase : c.phase with
  | reading | awaitingBody => rfl
  | dispatching | writing | shuttingDown | closed =>
    rw [hphase] at h
    cases h

/-- One read: bytes, or the end of a session that gets no more. -/
theorem readStep_cases (limits : ServingLimits) (now : Nat) (c : Session) (s : Stream) :
    (∃ bytes clock t, bytes ≠ [] ∧ s.Alike t ∧ s.delivered = bytes ++ t.delivered ∧
        s.ending = t.ending ∧ readStep limits now c s = .moved clock (c.receive limits bytes) t) ∨
      (s.delivered = [] ∧ ∃ t, s.Alike t ∧
        ((s.ending = .never ∧ readStep limits now c s = .stalled c t) ∨
          (s.ending ≠ .never ∧ ∃ clock,
            readStep limits now c s = .moved clock (c.cutOff s.ending) t))) := by
  have hpos : 0 < max limits.readSize 1 := by omega
  have hbrings := s.read_brings now hpos
  rw [readStep]
  rcases hread : s.read true now (max limits.readSize 1) with ⟨reading, clock, t⟩
  rw [hread] at hbrings
  cases hbrings with
  | data nonempty alike delivers ends =>
    exact .inl ⟨_, clock, t, nonempty, alike, delivers, ends, rfl⟩
  | ended alike delivers ends =>
    refine .inr ⟨delivers, t, alike, .inr ⟨by simp [ends], clock, ?_⟩⟩
    rw [ends]
    rfl
  | failed alike delivers ends =>
    refine .inr ⟨delivers, t, alike, .inr ⟨by simp [ends], clock, ?_⟩⟩
    rw [ends]
    rfl
  | waiting alike delivers ends => exact .inr ⟨delivers, t, alike, .inl ⟨ends, rfl⟩⟩

/-- A phase that has done with reading is that of all that is still to come. -/
theorem onAll_of_not_reads {phase : Phase} (h : phase.reads = false) (bytes : Bytes) :
    phase.onAll limits bytes = phase := by
  rw [Phase.onAll]
  split
  · rfl
  · cases phase with
    | reading | awaitingBody => cases h
    | dispatching | writing | shuttingDown | closed => rfl

theorem goto_onAll_nil : c.goto (c.phase.onAll limits []) = c := rfl

/-- **Reading leads to the phase of all that is delivered**, or to the end of the session if that
phase would still read; and nothing else is done to the stream. -/
theorem run_of_reads (hreads : c.phase.reads = true) :
    let last := c.goto (c.phase.onAll limits s.delivered)
    ∃ t, s.Alike t ∧
      ((last.phase.reads = true ∧ run limits handler now c s = (last.cutOff s.ending, t)) ∨
        (last.phase.reads = false ∧ ∃ clock,
          run limits handler now c s = run limits handler clock last t)) := by
  fun_induction run limits handler now c s with
  | case1 now c s d t hstep =>
    rw [step_of_reads hreads] at hstep
    obtain ⟨_, _, _, -, -, -, -, hread⟩ | ⟨hnone, u, halike, hcut⟩ :=
      readStep_cases limits now c s
    · cases hread.symm.trans hstep
    · obtain ⟨hnever, hread⟩ | ⟨-, _, hread⟩ := hcut
      · cases hread.symm.trans hstep
        refine ⟨_, halike, .inl ?_⟩
        rw [hnone, goto_onAll_nil, hnever]
        exact ⟨hreads, rfl⟩
      · cases hread.symm.trans hstep
  | case2 now c s clock d t hstep ih =>
    rw [step_of_reads hreads] at hstep
    obtain ⟨bytes, _, _, hne, halike, hdelivers, hends, hread⟩ | ⟨hnone, u, halike, hcut⟩ :=
      readStep_cases limits now c s
    · cases hread.symm.trans hstep
      have hlast : c.goto (c.phase.onAll limits s.delivered) =
          (c.receive limits bytes).goto
            ((c.receive limits bytes).phase.onAll limits t.delivered) := by
        rw [hdelivers, Phase.onAll_append limits c.phase hne]
        rfl
      rw [hlast]
      cases hreads' : (c.receive limits bytes).phase.reads with
      | true =>
        obtain ⟨u, halike', hrun⟩ := ih hreads'
        rw [hends]
        exact ⟨u, halike.trans halike', hrun⟩
      | false =>
        rw [onAll_of_not_reads hreads']
        exact ⟨t, halike, .inr ⟨hreads', clock, rfl⟩⟩
    · obtain ⟨-, hread⟩ | ⟨hends, _, hread⟩ := hcut
      · cases hread.symm.trans hstep
      · cases hread.symm.trans hstep
        refine ⟨_, halike, .inl ?_⟩
        rw [hnone, goto_onAll_nil, run_of_closed (closed_cutOff hends)]
        exact ⟨hreads, rfl⟩

/-! ### Writing -/

/-- **A delivery leads to the end of the session.**  What is left undone, and what is reported, is
decided by how much of the response has been taken. -/
theorem run_of_writing {delivery : Delivery} (hphase : c.phase = .writing delivery) :
    let wire := delivery.pending.flatten
    let last := run limits handler now c s
    ∃ sent, sent <+: wire ∧
      last.2.written = s.written ++ sent ∧
      last.2.flushes = s.flushes + (if sent = wire then 1 else 0) ∧
      last.2.shutdowns = s.shutdowns + (if sent = wire ∧ s.flushError = none then 1 else 0) ∧
      last.1.requests = c.requests ∧
      last.1.notices = c.notices ++ (writeNotice? s sent wire).toList ∧
      (last.1.phase = .closed ↔ sent = wire ∨ s.obstacle? ≠ some .hang) := by
  intro wire last
  have hmeets := delivery.run_meets s
  rcases hrun : delivery.run s with ⟨outcome, left, t⟩
  rw [hrun] at hmeets
  have hstep : step limits handler now c s = match outcome with
      | .waiting => .stalled (c.goto (.writing left)) t
      | .failed error => .moved now (c.closeWith (.writeFailed error)) t
      | .delivered => .moved now (c.goto .shuttingDown) t := by
    simp only [step, hphase, hrun]
    cases outcome <;> rfl
  cases hmeets with
  | @flushed rest flush =>
    have hlast : last = (c.goto .closed, (s.took wire rest).flush.2.shutdown.2) := by
      refine (run_of_moved hstep).trans ((run_of_moved rfl).trans (run_of_closed rfl))
    refine ⟨wire, List.prefix_rfl, ?_⟩
    rw [hlast]
    simp [writeNotice?, flush, Stream.took, Stream.flush, Stream.shutdown, goto]
  | @unflushed rest error flush =>
    have hlast : last = (c.closeWith (.writeFailed error), (s.took wire rest).flush.2) :=
      (run_of_moved hstep).trans (run_of_closed rfl)
    refine ⟨wire, List.prefix_rfl, ?_⟩
    rw [hlast]
    simp [writeNotice?, flush, Stream.took, Stream.flush, closeWith]
  | @refused sent rest met error part short obstacle fault =>
    have hlast : last = (c.closeWith (.writeFailed error), s.took sent rest) :=
      (run_of_moved hstep).trans (run_of_closed rfl)
    have hmet : met ≠ .hang := by
      rintro rfl
      cases fault
    refine ⟨sent, part, ?_⟩
    rw [hlast]
    simp [writeNotice?, short, obstacle, fault, hmet, Stream.took, closeWith, wire]
  | @waits sent rest part short obstacle =>
    have hlast : last = (c.goto (.writing left), s.took sent rest) := run_of_stalled hstep
    refine ⟨sent, part, ?_⟩
    rw [hlast]
    simp [writeNotice?, short, obstacle, WriteStep.fault?, Stream.took, goto, wire]

end Run

/-! ### Reading no more -/

/-- The same move, with another script left to be read and another timer. -/
def Step.reading (reads : List ReadStep) (wakeAt : Option Nat) : Step → Step
  | moved now c s => moved now c (s.reading reads wakeAt)
  | stalled c s => stalled c (s.reading reads wakeAt)

/-- The stream that a move leaves. -/
def Step.stream : Step → Stream
  | moved _ _ s => s
  | stalled _ s => s

/-- From here on nothing is read: whatever there may be to read, it is left as it is, and all else
comes to the same. -/
def ReadsNoMore (limits : ServingLimits) (handler : Handler) (now : Nat) (c : Session)
    (s : Stream) : Prop :=
  ∀ reads wakeAt, run limits handler now c (s.reading reads wakeAt) =
    ((run limits handler now c s).1, (run limits handler now c s).2.reading reads wakeAt)

/-- Where a served connection stands before each of its moves. -/
inductive Passes (limits : ServingLimits) (handler : Handler) (s : Stream) :
    Nat → Session → Stream → Prop
  | start : Passes limits handler s 0 (start limits) s
  | move {now clock : Nat} {c d : Session} {t u : Stream} (before : Passes limits handler s now c t)
      (step : step limits handler now c t = .moved clock d u) : Passes limits handler s clock d u

section NoMore

variable {limits : ServingLimits} {handler : Handler} {now clock : Nat} {c d : Session}
  {s t : Stream}

/-- A session that has done with reading has done with it for good. -/
theorem not_reads_of_moved (hreads : c.phase.reads = false)
    (hstep : step limits handler now c s = .moved clock d t) : d.phase.reads = false := by
  rw [step] at hstep
  split at hstep
  · next hphase => simp [hphase, Phase.reads] at hreads
  · next hphase => simp [hphase, Phase.reads] at hreads
  · cases hstep
    rfl
  · split at hstep <;> cases hstep <;> rfl
  · cases hstep
    rfl
  · cases hstep

/-- Such a session takes no notice of what could be read. -/
theorem step_reading (limits : ServingLimits) (handler : Handler) (now : Nat) (s : Stream)
    (hreads : c.phase.reads = false) (reads : List ReadStep) (wakeAt : Option Nat) :
    step limits handler now c (s.reading reads wakeAt) =
      (step limits handler now c s).reading reads wakeAt := by
  rw [step, step]
  cases hphase : c.phase with
  | reading | awaitingBody => simp [hphase, Phase.reads] at hreads
  | dispatching request => rfl
  | writing delivery =>
    dsimp only
    rw [delivery.run_reading s reads wakeAt]
    obtain ⟨outcome, left, t⟩ := delivery.run s
    cases outcome <;> rfl
  | shuttingDown => rfl
  | closed => rfl

theorem readsNoMore_of_not_reads (hreads : c.phase.reads = false) :
    ReadsNoMore limits handler now c s := by
  intro reads wakeAt
  fun_induction run limits handler now c s with
  | case1 now c s d t hstep =>
    have hreading := step_reading limits handler now s hreads reads wakeAt
    rw [hstep] at hreading
    exact run_of_stalled hreading
  | case2 now c s clock d t hstep ih =>
    have hreading := step_reading limits handler now s hreads reads wakeAt
    rw [hstep] at hreading
    rw [run_of_moved hreading]
    exact ih (not_reads_of_moved hreads hstep)

/-- A session that still reads moves by reading. -/
theorem alike_step (hreads : c.phase.reads = true) :
    s.Alike (step limits handler now c s).stream := by
  rw [step_of_reads hreads]
  obtain ⟨_, _, t, -, halike, -, -, hread⟩ | ⟨-, t, halike, ⟨-, hread⟩ | ⟨-, _, hread⟩⟩ :=
    readStep_cases limits now c s
  all_goals
    rw [hread]
    exact halike

/-- As long as a session reads, nothing else has been done to its stream. -/
theorem Passes.alike (h : Passes limits handler s now c t) (hreads : c.phase.reads = true) :
    s.Alike t := by
  induction h with
  | start => exact Stream.Alike.refl s
  | @move now clock c d t u before hstep ih =>
    cases hbefore : c.phase.reads with
    | true =>
      have halike : t.Alike (step limits handler now c t).stream := alike_step hbefore
      rw [hstep] at halike
      exact (ih hbefore).trans halike
    | false =>
      rw [not_reads_of_moved hbefore hstep] at hreads
      cases hreads

end NoMore

/-! ### The whole run -/

/-- A session that has read something is no longer fresh. -/
theorem isFresh_onData (limits : ServingLimits) (bytes : Bytes) (phase : Phase) :
    (phase.onData limits bytes).isFresh = false := by
  cases phase with
  | reading reader draft started =>
    rw [Phase.onData]
    split
    · rfl
    · rfl
    · rw [Phase.afterHead]
      repeat' split
      all_goals first | rfl | (rw [Phase.addBody]; split <;> rfl)
  | awaitingBody request expected received =>
    rw [Phase.onData, Phase.addBody]
    split <;> rfl
  | dispatching | writing | shuttingDown | closed => rfl

theorem isFresh_onAll (limits : ServingLimits) (bytes : Bytes) :
    ((start limits).phase.onAll limits bytes).isFresh = bytes.isEmpty := by
  rw [Phase.onAll]
  split
  · next hempty =>
    rw [hempty]
    rfl
  · next hsome =>
    rw [isFresh_onData, Bool.eq_false_iff.2 hsome]

/-- A session that is cut off before it has an answer reports what its stream has come to. -/
theorem notices_cutOff {c : Session} {s : Stream}
    (hfresh : c.phase.isFresh = s.delivered.isEmpty) :
    (c.cutOff s.ending).notices = c.notices ++ (readNotice? s).toList := by
  rw [cutOff.eq_def, readNotice?, hfresh]
  cases s.ending with
  | ended => cases s.delivered <;> simp [goto, closeWith]
  | failed error => rfl
  | never => exact (List.append_nil _).symm

theorem requests_cutOff (c : Session) (ending : Stream.Ending) :
    (c.cutOff ending).requests = c.requests := by
  cases ending with
  | ended =>
    rw [cutOff]
    split <;> rfl
  | failed error => rfl
  | never => rfl

/-- It is closed, unless its stream leaves it waiting. -/
theorem closed_cutOff_iff {c : Session} (hreads : c.phase.reads = true) (ending : Stream.Ending) :
    (c.cutOff ending).phase = .closed ↔ ending ≠ .never := by
  refine ⟨?_, closed_cutOff⟩
  rintro hclosed rfl
  rw [cutOff] at hclosed
  rw [hclosed] at hreads
  cases hreads

/-- **Serving comes to the end of what is delivered**, without an answer, or to the delivery of the
one response that the answer stands for. -/
theorem serve_reaches (limits : ServingLimits) (handler : Handler) (s : Stream) :
    let answer := answerTo limits s.delivered
    let whole := (start limits).goto ((start limits).phase.onAll limits s.delivered)
    ∃ t, s.Alike t ∧
      ((answer = .silence ∧ whole.phase.reads = true ∧
          serve limits handler s = (whole.cutOff s.ending, t)) ∨
        (answer ≠ .silence ∧ ∃ (clock : Nat) (c : Session) (response : Response),
          c.phase = .writing (.ofResponse response) ∧ response.wire = answer.wire handler ∧
          c.requests = answer.calls ∧ c.notices = [] ∧
          serve limits handler s = run limits handler clock c t)) := by
  intro answer whole
  have hstands : whole.phase.StandsFor answer := onAll_standsFor limits s.delivered
  have hwhole : ∃ t, s.Alike t ∧
      ((whole.phase.reads = true ∧ serve limits handler s = (whole.cutOff s.ending, t)) ∨
        (whole.phase.reads = false ∧ ∃ clock,
          serve limits handler s = run limits handler clock whole t)) :=
    run_of_reads rfl
  obtain ⟨t, halike, ⟨hreads, hserve⟩ | ⟨hreads, clock, hserve⟩⟩ := hwhole
  · exact ⟨t, halike, .inl ⟨hstands.silent hreads, hreads, hserve⟩⟩
  · refine ⟨t, halike, .inr ?_⟩
    cases hanswer : answer with
    | silence =>
      rw [hanswer] at hstands
      cases hreads.symm.trans hstands
    | stock status =>
      rw [hanswer] at hstands
      exact ⟨Answer.noConfusion, clock, whole, .stock status, hstands, rfl, rfl, rfl, hserve⟩
    | handled request =>
      rw [hanswer] at hstands
      have hphase : whole.phase = .dispatching request := hstands
      have hstep : step limits handler clock whole t =
          .moved clock (whole.dispatch handler request) t := by
        rw [step, hphase]
      exact ⟨Answer.noConfusion, clock, whole.dispatch handler request,
        handlerResponse handler request, rfl, rfl, rfl, rfl, hserve.trans (run_of_moved hstep)⟩

/-- **One response, and one end.**  Whatever the script of its stream, a served connection

* writes the beginning of one response and nothing else: the stock reply that refuses what was sent,
  or what the handler made of the request, without body for `HEAD`; and nothing at all if there is
  no answer;
* only reads, up to a point, and from there on reads no more;
* flushes once if all of the response is written, and shuts the stream down once if that succeeds;
* reports at most one failure: that the stream ended in the middle of a request, that a read failed
  before there was an answer, or that the response could not be written or flushed;
* is closed in the end, unless its stream leaves it waiting for ever, for bytes or to write. -/
theorem serve_concludes (limits : ServingLimits) (handler : Handler) (s : Stream) :
    let answer := answerTo limits s.delivered
    let wire := answer.wire handler
    let last := serve limits handler s
    (∀ status, answer = .stock status → status = .badRequest ∨ status = .payloadTooLarge) ∧
    (∀ now c t, Passes limits handler s now c t →
      s.Alike (step limits handler now c t).stream ∨ ReadsNoMore limits handler now c t) ∧
    ∃ sent, sent <+: wire ∧
      last.2.written = s.written ++ sent ∧
      last.2.flushes = s.flushes + (if answer ≠ .silence ∧ sent = wire then 1 else 0) ∧
      last.2.shutdowns = s.shutdowns +
        (if answer ≠ .silence ∧ sent = wire ∧ s.flushError = none then 1 else 0) ∧
      last.1.requests = answer.calls ∧
      last.1.notices = (if answer = .silence then readNotice? s
        else writeNotice? s sent wire).toList ∧
      (last.1.phase = .closed ↔
        if answer = .silence then s.ending ≠ .never
        else sent = wire ∨ s.obstacle? ≠ some .hang) := by
  intro answer wire last
  refine ⟨fun status h => status_of_stock h, fun now c t hpasses => ?_, ?_⟩
  · cases hreads : c.phase.reads with
    | true => exact .inl ((hpasses.alike hreads).trans (alike_step hreads))
    | false => exact .inr (readsNoMore_of_not_reads hreads)
  -- The stream that the run comes to differs from the first in what has been read alone.
  obtain ⟨_, ⟨reads, wakeAt, rfl⟩, ⟨hsilent, hreads, hserve⟩ |
    ⟨hanswered, clock, c, response, hphase, hwire, hrequests, hnotices, hserve⟩⟩ :=
      serve_reaches limits handler s
  · refine ⟨[], List.nil_prefix, ?_⟩
    simp only [last, answer, hserve, hsilent, ne_eq, not_true_eq_false, false_and, if_false,
      if_true]
    exact ⟨(List.append_nil _).symm, rfl, rfl, requests_cutOff _ s.ending,
      notices_cutOff (isFresh_onAll limits s.delivered), closed_cutOff_iff hreads s.ending⟩
  · have hends := @run_of_writing limits handler clock c (s.reading reads wakeAt) _ hphase
    have hflatten : (Delivery.ofResponse response).pending.flatten = wire := hwire
    rw [← hserve, hrequests, hnotices, hflatten] at hends
    simp only [hanswered, answer, ne_eq, not_false_eq_true, true_and, if_false]
    exact hends

end Session

end HttpExchange
