import HttpExchange.Proofs.Head.Resume
import HttpExchange.Proofs.Request.Length
import HttpExchange.Proofs.Response.Delivered
import HttpExchange.Session

/-!
# What a session does with the bytes it is sent

A session reads piece by piece, yet what it does depends on the bytes alone:

* `answerTo` — the answer to a run of bytes, said without reads, buffers or phases;
* `Phase.onData_append` — two reads move a session as one read of both would;
* `outcome_step` — no move changes what a session comes to (`outcome`);
* `serve_answers` — a served connection calls its handler and writes as `answerTo` says, whatever the
  script that brings the bytes.
-/

namespace HttpExchange.Session

/-! ### The answer to a run of bytes -/

/-- What becomes of the one request of a connection. -/
inductive Answer
  /-- The handler is not called and nothing is written. -/
  | silence
  /-- A stock reply, without the handler. -/
  | stock (status : Status)
  /-- The handler is called once, with this request. -/
  | handled (request : Request)
  deriving DecidableEq, Repr

/-- The answer to all the bytes that a connection is sent: a reader takes the head off their front,
and the length it declares cuts the body off the rest. -/
def answerTo (limits : ServingLimits) (bytes : Bytes) : Answer :=
  let p := (Head.Reader.ofLimit limits.maxHead).feed {} bytes
  match p.verdict with
  | .failed _ => .stock .badRequest
  | .incomplete => .silence
  | .complete headLength =>
    if p.draft.method ∈ [Method.post, .put, .patch] then
      match p.draft.request.contentLength? with
      | some (.ok length) =>
        if length = 0 then .handled p.draft.request
        else if limits.maxBody < length then .stock .payloadTooLarge
        else if headLength + length ≤ bytes.length then
          .handled (p.draft.withBody ((bytes.drop headLength).take length))
        else .silence
      | some (.error _) | none => .stock .badRequest
    else .handled p.draft.request

/-- What a stream carries once a response has been delivered to it, as far as its far end takes
it. -/
def writtenWith (response : Response) (s : Stream) : Bytes :=
  ((Delivery.ofResponse response).run s).2.2.written

/-- The response of a handler; to `HEAD` it has no body. -/
def handlerResponse (handler : Handler) (request : Request) : Response :=
  if request.method = .head then (handler request {}).withoutBody else handler request {}

namespace Answer

/-- The requests that the handler is called with. -/
def calls : Answer → List Request
  | handled request => [request]
  | _ => []

/-- What a stream carries after the answer. -/
def written (handler : Handler) (s : Stream) : Answer → Bytes
  | silence => s.written
  | stock status => writtenWith (.stock status) s
  | handled request => writtenWith (handlerResponse handler request) s

/-- The bytes that an answer puts on the wire. -/
def wire (handler : Handler) : Answer → Bytes
  | silence => []
  | stock status => (Response.stock status).wire
  | handled request => (handlerResponse handler request).wire

end Answer

/-! ### Two reads come to one -/

theorem size_append_list {α : Type} (xs : Array α) (ys : List α) :
    (xs ++ ys).size = xs.size + ys.length := by
  rw [← Array.length_toList, Array.toList_appendList, List.length_append, Array.length_toList]

theorem append_append_list {α : Type} (xs : Array α) (ys zs : List α) :
    xs ++ ys ++ zs = xs ++ (ys ++ zs) := by
  apply Array.ext'
  simp only [Array.toList_appendList, List.append_assoc]

namespace Phase

theorem onData_addBody (limits : ServingLimits) (request : Request) (expected : Nat)
    (received : Array UInt8) (a b : Bytes) :
    (addBody request expected received a).onData limits b =
      addBody request expected received (a ++ b) := by
  simp only [addBody]
  by_cases hfull : expected ≤ received.size + a.length
  · -- the first piece has all that is missing
    have htake : (a ++ b).take (expected - received.size) = a.take (expected - received.size) :=
      List.take_append_of_le_length (by omega)
    have hsize : expected ≤ (received ++ a.take (expected - received.size)).size := by
      rw [size_append_list, List.length_take]
      omega
    rw [htake, if_pos hsize]
    rfl
  · have hall : a.take (expected - received.size) = a := List.take_of_length_le (by omega)
    have hsize : ¬expected ≤ (received ++ a).size := by
      rw [size_append_list]
      omega
    have hrest : expected - (received ++ a).size = expected - received.size - a.length := by
      rw [size_append_list]
      omega
    rw [hall, if_neg hsize, List.take_append, hall]
    simp only [onData, addBody]
    rw [hrest, append_append_list]

theorem onData_afterHead (limits : ServingLimits) (request : Request) (a b : Bytes) :
    (afterHead limits request a).onData limits b = afterHead limits request (a ++ b) := by
  simp only [afterHead]
  split
  · split
    · rfl
    · rfl
    · split
      · rfl
      · split
        · rfl
        · exact onData_addBody limits request _ #[] a b
  · rfl

/-- **Two reads move a session as one read of both would.** -/
theorem onData_append (limits : ServingLimits) (phase : Phase) (a b : Bytes) :
    phase.onData limits (a ++ b) = (phase.onData limits a).onData limits b := by
  cases phase with
  | reading reader draft started =>
    have hcut := reader.feed_append draft a b
    have hle : ∀ n, (reader.feed draft a).verdict = .complete n → n ≤ a.length := by
      intro n h
      exact Head.Reader.consumed_le_length h
    simp only [onData]
    rw [hcut]
    rcases hfeed : reader.feed draft a with ⟨verdict, reader', draft'⟩
    cases verdict with
    | incomplete =>
      simp only [Head.Progress.resume]
      obtain ⟨verdict', reader'', draft''⟩ := reader'.feed draft' b
      cases verdict' with
      | incomplete | failed fault => rfl
      | complete consumed =>
        simp only [Head.Progress.shift, Head.Verdict.shift]
        rw [List.drop_append, List.drop_eq_nil_of_le (Nat.le_add_right _ _), List.nil_append,
          Nat.add_sub_cancel_left]
    | failed fault => rfl
    | complete consumed =>
      show afterHead limits draft'.request ((a ++ b).drop consumed) =
        (afterHead limits draft'.request (a.drop consumed)).onData limits b
      rw [onData_afterHead, List.drop_append_of_le_length (hle consumed (by rw [hfeed]))]
  | awaitingBody request expected received =>
    exact (onData_addBody limits request expected received a b).symm
  | dispatching | writing | shuttingDown | closed => rfl

/-- The phase once everything that is still to come has been read. -/
def onAll (limits : ServingLimits) (bytes : Bytes) (phase : Phase) : Phase :=
  if bytes.isEmpty then phase else phase.onData limits bytes

theorem onAll_append (limits : ServingLimits) (phase : Phase) {a : Bytes} (ha : a ≠ [])
    (b : Bytes) : phase.onAll limits (a ++ b) = (phase.onData limits a).onAll limits b := by
  cases b with
  | nil => simp [onAll, ha]
  | cons x rest =>
    simp only [onAll, List.append_eq_nil_iff, List.isEmpty_iff, ha, reduceCtorEq, and_false,
      if_false]
    exact onData_append limits phase a (x :: rest)

/-- The requests that the handler is still called with if nothing more is read. -/
def calls : Phase → List Request
  | dispatching request => [request]
  | _ => []

/-- What the stream carries at the end if nothing more is read. -/
def written (handler : Handler) (s : Stream) : Phase → Bytes
  | dispatching request => writtenWith (handlerResponse handler request) s
  | writing delivery => (delivery.run s).2.2.written
  | _ => s.written

/-- What is written does not depend on what is still to be read. -/
theorem written_of_alike (handler : Handler) {s t : Stream} (h : s.Alike t) (phase : Phase) :
    phase.written handler t = phase.written handler s := by
  obtain ⟨reads, wakeAt, rfl⟩ := h
  cases phase with
  | dispatching request =>
    show writtenWith _ _ = writtenWith _ _
    rw [writtenWith, writtenWith, Delivery.run_reading]
    rfl
  | writing delivery =>
    show (delivery.run _).2.2.written = _
    rw [Delivery.run_reading]
    rfl
  | reading | awaitingBody | shuttingDown | closed => rfl

end Phase

/-! ### A run -/

/-- What a session comes to: the requests its handler is called with and the bytes its stream
carries at the end. -/
def outcome (limits : ServingLimits) (handler : Handler) (c : Session) (s : Stream) :
    List Request × Bytes :=
  let last := c.phase.onAll limits s.delivered
  (c.requests ++ last.calls, last.written handler s)

/-- A phase that has done with reading takes no notice of what is still to come. -/
theorem outcome_of_settled {limits : ServingLimits} {c : Session}
    (h : ∀ bytes, c.phase.onData limits bytes = c.phase) (handler : Handler) (s : Stream) :
    outcome limits handler c s = (c.requests ++ c.phase.calls, c.phase.written handler s) := by
  have hall : c.phase.onAll limits s.delivered = c.phase := by
    rw [Phase.onAll]
    split
    · rfl
    · exact h _
  rw [outcome, hall]

/-- What a move leads to: the outcome of the next session, or that of a session left alone. -/
def Step.outcome (limits : ServingLimits) (handler : Handler) : Step → List Request × Bytes
  | .moved _ c s => Session.outcome limits handler c s
  | .stalled c s => (c.requests, s.written)

theorem outcome_readStep (limits : ServingLimits) (handler : Handler) (now : Nat) (c : Session)
    (s : Stream) (hcalls : c.phase.calls = [])
    (hwritten : ∀ t, c.phase.written handler t = t.written) :
    (readStep limits now c s).outcome limits handler = outcome limits handler c s := by
  have hnone : s.delivered = [] → outcome limits handler c s = (c.requests, s.written) := by
    intro h
    simp [outcome, h, Phase.onAll, hcalls, hwritten]
  have hpos : 0 < max limits.readSize 1 := by omega
  have hbrings := s.read_brings now hpos
  rw [readStep]
  rcases hread : s.read true now (max limits.readSize 1) with ⟨reading, clock, t⟩
  rw [hread] at hbrings
  cases hbrings with
  | data nonempty alike delivers ends =>
    rename_i bytes
    show outcome limits handler (c.receive limits bytes) t = outcome limits handler c s
    rw [outcome, outcome, delivers, Phase.onAll_append limits c.phase nonempty,
      Phase.written_of_alike handler alike]
    rfl
  | ended alike delivers ends =>
    rw [hnone delivers, ← alike.written]
    show outcome limits handler _ t = _
    split
    · rw [outcome_of_settled (fun _ => rfl)]
      simp [goto, Phase.calls, Phase.written]
    · rw [outcome_of_settled (fun _ => rfl)]
      simp [closeWith, Phase.calls, Phase.written]
  | failed alike delivers ends =>
    rw [hnone delivers, ← alike.written]
    show outcome limits handler _ t = _
    rw [outcome_of_settled (fun _ => rfl)]
    simp [closeWith, Phase.calls, Phase.written]
  | waiting alike delivers ends =>
    rw [hnone delivers, ← alike.written]
    rfl

/-- **No move changes what a session comes to.** -/
theorem outcome_step (limits : ServingLimits) (handler : Handler) (now : Nat) (c : Session)
    (s : Stream) : (step limits handler now c s).outcome limits handler =
      outcome limits handler c s := by
  rw [step]
  cases hphase : c.phase with
  | reading reader draft started =>
    exact outcome_readStep limits handler now c s (by rw [hphase]; rfl)
      fun t => by rw [hphase]; rfl
  | awaitingBody request expected received =>
    exact outcome_readStep limits handler now c s (by rw [hphase]; rfl)
      fun t => by rw [hphase]; rfl
  | dispatching request =>
    show outcome limits handler (c.dispatch handler request) s = _
    rw [outcome_of_settled (c := c) (fun _ => by rw [hphase]; rfl),
      outcome_of_settled (fun _ => rfl), hphase]
    simp only [dispatch, Phase.calls, List.append_nil]
    rfl
  | writing delivery =>
    rw [outcome_of_settled (c := c) (fun _ => by rw [hphase]; rfl), hphase]
    have hwritten : (Phase.writing delivery).written handler s = (delivery.run s).2.2.written := rfl
    rw [hwritten]
    dsimp only
    obtain ⟨result, left, t⟩ := delivery.run s
    cases result with
    | delivered =>
      show outcome limits handler (c.goto .shuttingDown) t = _
      rw [outcome_of_settled (fun _ => rfl)]
      rfl
    | failed error =>
      show outcome limits handler (c.closeWith (.writeFailed error)) t = _
      rw [outcome_of_settled (fun _ => rfl)]
      rfl
    | waiting => simp [Step.outcome, goto, Phase.calls]
  | shuttingDown =>
    show outcome limits handler (c.goto .closed) s.shutdown.2 = _
    rw [outcome_of_settled (c := c) (fun _ => by rw [hphase]; rfl),
      outcome_of_settled (fun _ => rfl), hphase]
    rfl
  | closed =>
    rw [outcome_of_settled (c := c) (fun _ => by rw [hphase]; rfl), hphase]
    simp [Step.outcome, Phase.calls, Phase.written]

/-- A run ends with what the session comes to. -/
theorem run_eq_outcome (limits : ServingLimits) (handler : Handler) (now : Nat) (c : Session)
    (s : Stream) :
    ((run limits handler now c s).1.requests, (run limits handler now c s).2.written) =
      outcome limits handler c s := by
  fun_induction run limits handler now c s with
  | case1 now c s d t h =>
    rw [← outcome_step limits handler now c s, h]
    rfl
  | case2 now c s clock d t h ih =>
    rw [ih, ← outcome_step limits handler now c s, h]
    rfl

/-! ### The outcome is the answer -/

/-- A phase that calls the handler and writes as an answer says. -/
def Phase.Gives (phase : Phase) (handler : Handler) (s : Stream) (answer : Answer) : Prop :=
  phase.calls = answer.calls ∧ phase.written handler s = answer.written handler s

/-- Whether a session in this phase goes on by reading. -/
def Phase.reads : Phase → Bool
  | reading _ _ _ | awaitingBody _ _ _ => true
  | _ => false

/-- A phase in which a session has come to that answer, or has come to none yet. -/
def Phase.StandsFor (phase : Phase) : Answer → Prop
  | .silence => phase.reads = true
  | .stock status => phase = .reject status
  | .handled request => phase = .dispatching request

theorem Phase.StandsFor.gives {phase : Phase} {answer : Answer} (h : phase.StandsFor answer)
    (handler : Handler) (s : Stream) : phase.Gives handler s answer := by
  cases answer with
  | silence =>
    cases phase with
    | reading | awaitingBody => exact ⟨rfl, rfl⟩
    | dispatching | writing | shuttingDown | closed => cases h
  | stock status =>
    cases h
    exact ⟨rfl, rfl⟩
  | handled request =>
    cases h
    exact ⟨rfl, rfl⟩

/-- A session that still reads has come to no answer. -/
theorem Phase.StandsFor.silent {phase : Phase} {answer : Answer} (h : phase.StandsFor answer)
    (hreads : phase.reads = true) : answer = .silence := by
  cases answer with
  | silence => rfl
  | stock | handled =>
    cases h
    cases hreads

/-- A body is handed over exactly when all of it is there. -/
theorem addBody_standsFor (draft : Head.Draft) (length : Nat) (rest : Bytes) :
    (Phase.addBody draft.request length #[] rest).StandsFor
      (if length ≤ rest.length then .handled (draft.withBody (rest.take length))
        else .silence) := by
  have htake : ((#[] : Array UInt8) ++ rest.take length).toList = rest.take length := by
    rw [Array.toList_appendList]
    rfl
  simp only [Phase.addBody, List.size_toArray, List.length_nil, Nat.sub_zero, size_append_list,
    List.length_take, Nat.zero_add, htake, Nat.le_min, le_refl, true_and]
  split
  · rfl
  · rfl

/-- A fresh session that reads all the bytes comes to the answer to them. -/
theorem onAll_standsFor (limits : ServingLimits) (bytes : Bytes) :
    ((start limits).phase.onAll limits bytes).StandsFor (answerTo limits bytes) := by
  rw [Phase.onAll]
  split
  · next hempty =>
    rw [List.isEmpty_iff.1 hempty]
    rfl
  · simp only [start, Phase.onData, answerTo]
    have hle : ∀ n, ((Head.Reader.ofLimit limits.maxHead).feed {} bytes).verdict = .complete n →
        n ≤ bytes.length := fun n h => Head.Reader.consumed_le_length h
    rcases hfeed : (Head.Reader.ofLimit limits.maxHead).feed {} bytes with ⟨verdict, r, draft⟩
    rw [hfeed] at hle
    cases verdict with
    | incomplete => rfl
    | failed fault => rfl
    | complete headLength =>
      have hlength := hle headLength rfl
      show (Phase.afterHead limits draft.request (bytes.drop headLength)).StandsFor _
      simp only [Phase.afterHead, ← Method.expectsBody_iff]
      have hmethod : draft.request.method = draft.method := rfl
      rw [hmethod]
      split
      · cases hdeclared : draft.request.contentLength? with
        | none => rfl
        | some result =>
          cases result with
          | error fault => rfl
          | ok length =>
            by_cases hzero : length = 0
            · simp only [hzero, if_true]
              rfl
            · by_cases hlimit : limits.maxBody < length
              · simp only [hzero, hlimit, if_true, if_false]
                rfl
              · simp only [hzero, hlimit, if_false]
                have hbody := addBody_standsFor draft length (bytes.drop headLength)
                have hfits : length ≤ (bytes.drop headLength).length ↔
                    headLength + length ≤ bytes.length := by
                  rw [List.length_drop]
                  omega
                simpa only [hfits] using hbody
      · rfl

/-- What a stream carries more after a response is a beginning of its bytes. -/
theorem exists_sent_writtenWith (response : Response) (s : Stream) :
    ∃ sent, sent <+: response.wire ∧ writtenWith response s = s.written ++ sent ∧
      (s.obstacle? = none → sent = response.wire) :=
  ((Delivery.ofResponse response).run_meets s).exists_sent

/-- So it is after an answer. -/
theorem Answer.exists_sent (answer : Answer) (handler : Handler) (s : Stream) :
    ∃ sent, sent <+: answer.wire handler ∧ answer.written handler s = s.written ++ sent ∧
      (s.obstacle? = none → sent = answer.wire handler) := by
  cases answer with
  | silence => exact ⟨[], List.prefix_rfl, (List.append_nil _).symm, fun _ => rfl⟩
  | stock status => exact exists_sent_writtenWith (.stock status) s
  | handled request => exact exists_sent_writtenWith (handlerResponse handler request) s

/-- **The answer depends on the bytes alone.**  However a script cuts and delays the bytes, whatever
room one read has and however they end, the handler is called as `answerTo` says of all that is
delivered, and the stream is written to by delivering that one answer: it carries a beginning of the
answer's bytes, and all of them if no write is in the way.  And a body is as long as the header
declares. -/
theorem serve_answers (limits : ServingLimits) (handler : Handler) (s : Stream) :
    let answer := answerTo limits s.delivered
    (serve limits handler s).1.requests = answer.calls ∧
      (serve limits handler s).2.written = answer.written handler s ∧
      (∃ sent, sent <+: answer.wire handler ∧
        (serve limits handler s).2.written = s.written ++ sent ∧
        (s.obstacle? = none → sent = answer.wire handler)) ∧
      ∀ (request : Request) (length : Nat),
        request.contentLength? = some (.ok length) ↔ request.Declares length := by
  intro answer
  have hrun := run_eq_outcome limits handler 0 (start limits) s
  have hgives := (onAll_standsFor limits s.delivered).gives handler s
  rw [outcome, Prod.mk.injEq] at hrun
  have hwritten : (serve limits handler s).2.written = answer.written handler s :=
    hrun.2.trans hgives.2
  refine ⟨hrun.1.trans hgives.1, hwritten, ?_,
    fun request length => request.contentLength?_eq_some_ok_iff length⟩
  rw [hwritten]
  exact answer.exists_sent handler s

end HttpExchange.Session
