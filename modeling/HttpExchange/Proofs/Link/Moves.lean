import HttpExchange.Proofs.Link.Receive
import HttpExchange.Proofs.Link.Usage

/-!
# An exchange one operation at a time

`Exchange.run` goes on until the stream makes it wait.  `Exchange.move` does one operation on the
stream only: one write, the flush, or one read.  After each of them others may move, and the
exchange may be given up, so that every place where it could be waiting is a place between two
moves.  Together with what comes of it a move tells what has passed on the link (`LinkEvent`).

* `Exchange.run_move` — moves make up a run;
* `Stream.Tells`, `Exchange.move_tells` — what a move tells is what has happened on the stream;
* `Exchange.move_leaves` — what a move leaves of its link;
* `UnderWay.move` — the record of an exchange under way: what has been written is the
  front of the request, and the reader stands where all that has been read puts it;
* `UnderWay.exchanged` — a link that may be used again has a whole `Exchanged` behind it.
-/

namespace HttpExchange

/-- What passes on a link. -/
inductive LinkEvent
  /-- A request is about to be sent. -/
  | began (request : Outgoing)
  /-- The stream has taken these bytes. -/
  | wrote (bytes : Bytes)
  | flushed
  /-- The stream has brought these bytes. -/
  | got (bytes : Bytes)
  deriving DecidableEq, Repr

/-- The bytes that were sent. -/
def LinkEvent.sent : LinkEvent → Bytes
  | wrote bytes => bytes
  | _ => []

/-- The bytes that were read. -/
def LinkEvent.brought : LinkEvent → Bytes
  | got bytes => bytes
  | _ => []

/-- An exchange that came to its end and left its link fit for another: the request was written out
to the last byte and flushed, and what was read after that is one reply and nothing behind it, whose
end is marked and which keeps the link open. -/
structure Exchanged (viaProxy : Bool) (maxBody : Nat) where
  request : Outgoing
  /-- What each write took. -/
  writes : List Bytes
  /-- What each read brought. -/
  reads : List Bytes
  head : Reply.Head
  body : Bytes
  written : request.encode? viaProxy = .ok writes.flatten
  replied : (Reply.Reader.start request.method maxBody reads.flatten).advance =
    .complete head body true []
  version : head.version = "HTTP/1.1"
  keeps : head.asksToClose = false
  stays : head.status ≠ 101

/-- All that passed on the link, in order. -/
def Exchanged.events {viaProxy : Bool} {maxBody : Nat} (e : Exchanged viaProxy maxBody) :
    List LinkEvent :=
  .began e.request :: (e.writes.map .wrote ++ .flushed :: e.reads.map .got)

/-- Nothing but whole exchanges, one after the other. -/
def Whole (viaProxy : Bool) (maxBody : Nat) (events : List LinkEvent) : Prop :=
  ∃ exchanges : List (Exchanged viaProxy maxBody), events = exchanges.flatMap Exchanged.events

theorem whole_nil (viaProxy : Bool) (maxBody : Nat) : Whole viaProxy maxBody [] := ⟨[], rfl⟩

theorem Whole.append {viaProxy : Bool} {maxBody : Nat} {events : List LinkEvent}
    (h : Whole viaProxy maxBody events) (e : Exchanged viaProxy maxBody) :
    Whole viaProxy maxBody (events ++ e.events) := by
  obtain ⟨exchanges, rfl⟩ := h
  exact ⟨exchanges ++ [e], by simp⟩

namespace Exchange

/-- How far one operation has got an exchange, and what has passed on the link. -/
structure Motion where
  progress : Progress
  passed : List LinkEvent

/-- One operation of an exchange.  Where it fails, has to wait or is not needed any more, that is
where a run stops. -/
def move (now : Nat) (link : Link) (s : Stream) (x : Exchange) : Motion :=
  match x with
  | sending method [] => match s.flush with
    | (none, s) => ⟨⟨.waiting (.receiving method (.head 0)) none, now, link, s⟩, [.flushed]⟩
    | (some _, _) => ⟨x.run false now link s, []⟩
  | sending method (b :: rest) => match s.write (b :: rest) with
    | (.accepted (n + 1), s) =>
      ⟨⟨.waiting (.sending method (rest.drop n)) none, now, link, s⟩, [.wrote (b :: rest.take n)]⟩
    | _ => ⟨x.run false now link s, []⟩
  | receiving method stage =>
    match Reply.Reader.advance { method, maxBody := link.maxBody, stage, buffer := link.buffer } with
    | .wants r => match s.read false now s.perRead with
      | (.data bytes, now, s) =>
        ⟨⟨.waiting (.receiving r.method r.stage) none, now,
          { link with buffer := r.buffer ++ bytes }, s⟩, [.got bytes]⟩
      | _ => ⟨x.run false now link s, []⟩
    | _ => ⟨x.run false now link s, []⟩

end Exchange

/-- Taking a link into use, before anything is written. -/
def Link.begun (now : Nat) (link : Link) (request : Outgoing) (s : Stream) : Exchange.Motion :=
  match link.begin request with
  | (link, .error error) => ⟨⟨.finished (.error error), now, link, s⟩, [.began request]⟩
  | (link, .ok exchange) => ⟨⟨.waiting exchange none, now, link, s⟩, [.began request]⟩

/-! ### Where a request begins -/

/-- Only where an exchange begins is a request begun. -/
theorem Exchange.not_began_of_move (now : Nat) (link : Link) (s : Stream) (x : Exchange)
    (request : Outgoing) : .began request ∉ (x.move now link s).passed := by
  cases x with
  | sending method rest =>
    cases rest with
    | nil =>
      rw [move]
      split <;> simp
    | cons b rest =>
      rw [move]
      split <;> simp
  | receiving method stage =>
    rw [move]
    repeat' split
    all_goals simp

theorem Link.passed_begun (now : Nat) (link : Link) (request : Outgoing) (s : Stream) :
    (link.begun now request s).passed = [.began request] := by
  rw [begun]
  split <;> rfl

/-! ### What events tell of a stream -/

namespace Stream

/-- The events tell what has happened on a stream between two of its states. -/
structure Tells (s : Stream) (events : List LinkEvent) (t : Stream) : Prop where
  /-- Nothing but what they tell has been written. -/
  wrote : t.written = s.written ++ events.flatMap LinkEvent.sent
  /-- It has been flushed as often; a flush that failed is not told. -/
  flushed : s.flushes + events.count .flushed ≤ t.flushes
  /-- Nothing but what they tell has been read. -/
  got : s.coming = events.flatMap LinkEvent.brought ++ t.coming

variable {s t u : Stream} {events more : List LinkEvent}

theorem Tells.refl (s : Stream) : s.Tells [] s :=
  ⟨(List.append_nil _).symm, Nat.le_refl _, rfl⟩

theorem Tells.trans (h : s.Tells events t) (g : t.Tells more u) : s.Tells (events ++ more) u := by
  refine ⟨?_, ?_, ?_⟩
  · rw [g.wrote, h.wrote, List.flatMap_append, List.append_assoc]
  · have hfirst := h.flushed
    have hsecond := g.flushed
    rw [List.count_append]
    omega
  · rw [h.got, g.got, List.flatMap_append, List.append_assoc]

/-- An event of no bytes need not be told. -/
theorem Tells.silent {event : LinkEvent} (h : s.Tells [event] t) (hsent : event.sent = [])
    (hbrought : event.brought = []) : s.Tells [] t := by
  refine ⟨?_, Nat.le_trans (Nat.add_le_add_left (Nat.zero_le _) _) h.flushed, ?_⟩
  · rw [h.wrote, List.flatMap_singleton, hsent, List.flatMap_nil]
  · rw [h.got, List.flatMap_singleton, hbrought, List.flatMap_nil]

theorem tells_write (bytes : Bytes) (s : Stream) :
    s.Tells [.wrote (bytes.take (s.write bytes).1.taken)] (s.write bytes).2 := by
  have hcoming : (s.write bytes).2.coming = s.coming := by
    rw [write]
    split <;> rfl
  refine ⟨?_, Nat.le_of_eq (s.flushes_write bytes).symm, hcoming.symm⟩
  rw [s.written_write bytes, List.flatMap_singleton, LinkEvent.sent]

theorem tells_flush (s : Stream) : s.Tells [.flushed] s.flush.2 :=
  ⟨(List.append_nil _).symm, Nat.le_refl _, rfl⟩

theorem tells_read (patient : Bool) (now room : Nat) (s : Stream) :
    s.Tells [.got (s.read patient now room).1.bytes] (s.read patient now room).2.2 := by
  have halike := s.read_alike patient now room
  refine ⟨halike.written.trans (List.append_nil _).symm, Nat.le_of_eq halike.flushes.symm, ?_⟩
  rw [List.flatMap_singleton]
  exact s.coming_of_read patient now room

end Stream

/-! ### Moves make up a run -/

theorem Stream.weight_write (bytes : Bytes) (s : Stream) : (s.write bytes).2.weight = s.weight := by
  rw [write]
  split <;> rfl

namespace Reply.Reader

/-- Moves keep the method and the limit. -/
theorem keeps_of_again {r u : Reader} (h : r.step = .again u) :
    u.method = r.method ∧ u.maxBody = r.maxBody := by
  simp only [step, afterHead] at h
  repeat' split at h
  all_goals first | (cases h; exact ⟨rfl, rfl⟩) | cases h

theorem keeps_of_stop {r u : Reader} (h : r.step = .stop (.wants u)) :
    u.method = r.method ∧ u.maxBody = r.maxBody := by
  simp only [step, afterHead] at h
  repeat' split at h
  all_goals first | (cases h; exact ⟨rfl, rfl⟩) | cases h

theorem keeps_of_wants {r u : Reader} (h : r.advance = .wants u) :
    u.method = r.method ∧ u.maxBody = r.maxBody := by
  fun_induction advance r with
  | case1 r s hstep ih =>
    obtain ⟨hmethod, hmax⟩ := keeps_of_again hstep
    obtain ⟨hmethod', hmax'⟩ := ih h
    exact ⟨hmethod'.trans hmethod, hmax'.trans hmax⟩
  | case2 r verdict hstep => exact keeps_of_stop (h ▸ hstep)

end Reply.Reader

namespace Exchange

/-- An exchange sets the buffer of its link, whatever was there before. -/
theorem receive_buffer (patient : Bool) (now : Nat) (link : Link) (buffer : Bytes)
    (r : Reply.Reader) (s : Stream) :
    receive patient now { link with buffer } r s = receive patient now link r s := by
  fun_induction receive patient now link r s with
  | case1 _ _ _ _ _ _ _ hcomplete => exact receive_of_complete hcomplete
  | case2 _ _ _ _ _ hfailed => exact receive_of_failed hfailed
  | case3 _ _ _ _ hwants _ _ _ hread ih =>
    rw [receive_of_wants hwants, hread]
    exact ih
  | case4 _ _ _ _ hwants _ _ _ hread => rw [receive_of_wants hwants, hread]
  | case5 _ _ _ _ hwants _ _ _ hread => rw [receive_of_wants hwants, hread]
  | case6 _ _ _ _ hwants _ _ hread _ _ _ _ hended =>
    simp only [receive_of_wants hwants, hread, hended]
  | case7 _ _ _ _ hwants _ _ hread _ _ hended =>
    simp only [receive_of_wants hwants, hread, hended]
  | case8 _ _ _ _ hwants _ _ hread _ hended =>
    simp only [receive_of_wants hwants, hread, hended]

/-- What is left to do at most: bytes to write, the flush and what the script can bring. -/
def left (s : Stream) : Exchange → Nat
  | sending _ rest => rest.length + 1 + s.weight
  | receiving _ _ => s.weight

/-- The reader of an exchange that stands there. -/
def reader (link : Link) (method : Method) (stage : Reply.Stage) : Reply.Reader :=
  { method, maxBody := link.maxBody, stage, buffer := link.buffer }

/-- A reader that has been given bytes is that of its exchange, with the bytes on the link. -/
theorem reader_received {link : Link} {r : Reply.Reader} (h : r.maxBody = link.maxBody)
    (bytes : Bytes) :
    reader { link with buffer := r.buffer ++ bytes } r.method r.stage = r.received bytes := by
  rw [reader, Reply.Reader.received, ← h]

/-- What a move comes to.  The first three pass something; the others are a run, which stops at
once. -/
inductive Moved (now : Nat) (link : Link) (s : Stream) : Exchange → Motion → Prop
  | wrote {method : Method} {b : UInt8} {rest : Bytes} {n : Nat} {t : Stream}
      (write : s.write (b :: rest) = (.accepted (n + 1), t)) :
      Moved now link s (.sending method (b :: rest))
        ⟨⟨.waiting (.sending method (rest.drop n)) none, now, link, t⟩, [.wrote (b :: rest.take n)]⟩
  | flushed {method : Method} {t : Stream} (flush : s.flush = (none, t)) :
      Moved now link s (.sending method [])
        ⟨⟨.waiting (.receiving method (.head 0)) none, now, link, t⟩, [.flushed]⟩
  | got {method : Method} {stage : Reply.Stage} {r : Reply.Reader} {bytes : Bytes} {clock : Nat}
      {t : Stream} (wants : (reader link method stage).advance = .wants r)
      (read : s.read false now s.perRead = (.data bytes, clock, t)) :
      Moved now link s (.receiving method stage)
        ⟨⟨.waiting (.receiving r.method r.stage) none, clock,
          { link with buffer := r.buffer ++ bytes }, t⟩, [.got bytes]⟩
  | waitsToWrite {method : Method} {rest : Bytes} {t : Stream}
      (run : Exchange.run false now link s (.sending method rest) =
        ⟨.waiting (.sending method rest) none, now, link, t⟩) (silent : s.Tells [] t) :
      Moved now link s (.sending method rest)
        ⟨⟨.waiting (.sending method rest) none, now, link, t⟩, []⟩
  | waitsToRead {method : Method} {stage : Reply.Stage} {r : Reply.Reader} {wake : Option Nat}
      {clock : Nat} {t : Stream} (wants : (reader link method stage).advance = .wants r)
      (run : Exchange.run false now link s (.receiving method stage) =
        ⟨.waiting (.receiving r.method r.stage) wake, clock, { link with buffer := r.buffer }, t⟩)
      (silent : s.Tells [] t) :
      Moved now link s (.receiving method stage)
        ⟨⟨.waiting (.receiving r.method r.stage) wake, clock, { link with buffer := r.buffer }, t⟩,
          []⟩
  | completed {method : Method} {stage : Reply.Stage} {head : Reply.Head} {body : Bytes}
      {delimited : Bool} {buffer : Bytes}
      (complete : (reader link method stage).advance = .complete head body delimited buffer)
      (run : Exchange.run false now link s (.receiving method stage) =
        ⟨.finished (.ok (head.withBody body)), now,
          { link with buffer, reusable := leavesReusable head delimited buffer }, s⟩) :
      Moved now link s (.receiving method stage)
        ⟨⟨.finished (.ok (head.withBody body)), now,
          { link with buffer, reusable := leavesReusable head delimited buffer }, s⟩, []⟩
  | ended {x : Exchange} {head : Reply.Head} {body buffer : Bytes} {clock : Nat} {t : Stream}
      (run : x.run false now link s =
        ⟨.finished (.ok (head.withBody body)), clock,
          { link with buffer, reusable := leavesReusable head false buffer }, t⟩)
      (silent : s.Tells [] t) :
      Moved now link s x
        ⟨⟨.finished (.ok (head.withBody body)), clock,
          { link with buffer, reusable := leavesReusable head false buffer }, t⟩, []⟩
  | failed {x : Exchange} {error : CallError} {buffer : Bytes} {clock : Nat} {t : Stream}
      (run : x.run false now link s = ⟨.finished (.error error), clock, { link with buffer }, t⟩)
      (silent : s.Tells [] t) :
      Moved now link s x ⟨⟨.finished (.error error), clock, { link with buffer }, t⟩, []⟩

theorem moved_sending (now : Nat) (link : Link) (s : Stream) (method : Method) (rest : Bytes) :
    Moved now link s (.sending method rest) ((sending method rest).move now link s) := by
  cases rest with
  | nil =>
    rw [move]
    cases hflush : s.flushError with
    | none =>
      have hflushed : s.flush = (none, s.flush.2) := by rw [Stream.flush, hflush]
      rw [hflushed]
      exact .flushed hflushed
    | some error =>
      have hflushed : s.flush = (some error, s.flush.2) := by rw [Stream.flush, hflush]
      have hrun : Exchange.run false now link s (.sending method []) =
          ⟨.finished (.error (.io error)), now, link, s.flush.2⟩ := by
        rw [run, writeAll]
        simp only
        rw [hflushed]
      rw [hflushed, hrun]
      exact .failed hrun (s.tells_flush.silent rfl rfl)
  | cons b rest =>
    have htells := s.tells_write (b :: rest)
    cases hwrite : s.write (b :: rest) with
    | mk taken t =>
      rw [hwrite] at htells
      cases taken with
      | accepted count =>
        cases count with
        | zero =>
          have hrun : Exchange.run false now link s (.sending method (b :: rest)) =
              ⟨.finished (.error (.io wroteNothing)), now, link, t⟩ := by
            rw [run, writeAll, hwrite]
          rw [move, hwrite]
          simp only
          rw [hrun]
          exact .failed hrun (htells.silent rfl rfl)
        | succ n =>
          rw [move, hwrite]
          exact .wrote hwrite
      | failed error =>
        have hrun : Exchange.run false now link s (.sending method (b :: rest)) =
            ⟨.finished (.error (.io error)), now, link, t⟩ := by
          rw [run, writeAll, hwrite]
        rw [move, hwrite]
        simp only
        rw [hrun]
        exact .failed hrun (htells.silent rfl rfl)
      | waiting =>
        have hrun : Exchange.run false now link s (.sending method (b :: rest)) =
            ⟨.waiting (.sending method (b :: rest)) none, now, link, t⟩ := by
          rw [run, writeAll, hwrite]
        rw [move, hwrite]
        simp only
        rw [hrun]
        exact .waitsToWrite hrun (htells.silent rfl rfl)

/-- A move that brings bytes. -/
theorem move_of_read {now clock : Nat} {link : Link} {s t : Stream} {method : Method}
    {stage : Reply.Stage} {r : Reply.Reader} {bytes : Bytes}
    (hwants : (reader link method stage).advance = .wants r)
    (hread : s.read false now s.perRead = (.data bytes, clock, t)) :
    (receiving method stage).move now link s =
      ⟨⟨.waiting (.receiving r.method r.stage) none, clock,
        { link with buffer := r.buffer ++ bytes }, t⟩, [.got bytes]⟩ := by
  rw [reader] at hwants
  rw [move, hwants]
  simp only
  rw [hread]

/-- A move that finds the reply complete. -/
theorem move_of_complete {now : Nat} {link : Link} {s : Stream} {method : Method}
    {stage : Reply.Stage} {head : Reply.Head} {body : Bytes} {delimited : Bool} {buffer : Bytes}
    (hcomplete : (reader link method stage).advance = .complete head body delimited buffer) :
    (receiving method stage).move now link s =
      ⟨⟨.finished (.ok (head.withBody body)), now,
        { link with buffer, reusable := leavesReusable head delimited buffer }, s⟩, []⟩ := by
  have hrun : run false now link s (.receiving method stage) = _ := receive_of_complete hcomplete
  rw [reader] at hcomplete
  rw [move, hcomplete]
  simp only
  rw [hrun]

theorem moved_receiving (now : Nat) (link : Link) (s : Stream) (method : Method)
    (stage : Reply.Stage) :
    Moved now link s (.receiving method stage) ((receiving method stage).move now link s) := by
  have hrun : Exchange.run false now link s (.receiving method stage) =
      receive false now link (reader link method stage) s := rfl
  cases hadvance : (reader link method stage).advance with
  | complete head body delimited buffer =>
    rw [move_of_complete hadvance]
    exact .completed hadvance (hrun.trans (receive_of_complete hadvance))
  | failed error buffer =>
    rw [receive_of_failed hadvance] at hrun
    rw [move, ← reader, hadvance]
    simp only
    rw [hrun]
    exact .failed hrun (.refl s)
  | wants r =>
    rw [receive_of_wants hadvance] at hrun
    have htells := s.tells_read false now s.perRead
    cases hread : s.read false now s.perRead with
    | mk reading rest =>
      obtain ⟨clock, t⟩ := rest
      rw [hread] at hrun htells
      cases reading with
      | data bytes =>
        rw [move_of_read hadvance hread]
        exact .got hadvance hread
      | failed error =>
        rw [move, ← reader, hadvance]
        simp only at hrun ⊢
        rw [hread, hrun]
        exact .failed hrun (htells.silent rfl rfl)
      | waiting wake =>
        rw [move, ← reader, hadvance]
        simp only at hrun ⊢
        rw [hread, hrun]
        exact .waitsToRead hadvance hrun (htells.silent rfl rfl)
      | ended =>
        rw [move, ← reader, hadvance]
        simp only
        rw [hread]
        obtain ⟨method, maxBody, stage, buffer⟩ := r
        cases stage
        all_goals
          simp only [Reply.Reader.ended] at hrun ⊢
          rw [hrun]
        case untilEnd head => exact .ended hrun (htells.silent rfl rfl)
        all_goals exact .failed hrun (htells.silent rfl rfl)

/-- **What a move comes to.** -/
theorem moved (now : Nat) (link : Link) (s : Stream) (x : Exchange) :
    Moved now link s x (x.move now link s) := by
  cases x with
  | sending method rest => exact moved_sending now link s method rest
  | receiving method stage => exact moved_receiving now link s method stage

/-- **Moves make up a run.**  A move on which nothing passes is a whole run; after any other there
is less left to do, and a run from there is what it was from here. -/
theorem run_move (now : Nat) (link : Link) (s : Stream) (x : Exchange) :
    let m := x.move now link s
    (m.passed = [] ∧ m.progress = x.run false now link s) ∨
      ∃ y, m.progress.outcome = .waiting y none ∧ y.left m.progress.stream < x.left s ∧
        y.run false m.progress.now m.progress.link m.progress.stream = x.run false now link s := by
  have hmoved := moved now link s x
  generalize x.move now link s = m at hmoved ⊢
  cases hmoved with
  | wrote hwrite =>
    next method b rest n t =>
    have hweight := s.weight_write (b :: rest)
    rw [hwrite] at hweight
    refine .inr ⟨_, rfl, ?_, ?_⟩
    · simp only [left, hweight, List.length_drop, List.length_cons]
      omega
    · rw [run, run, writeAll, hwrite]
  | flushed hflush =>
    next method t =>
    have hweight : t.weight = s.weight := by
      rw [show t = s.flush.2 by rw [hflush]]
      rfl
    refine .inr ⟨_, rfl, ?_, ?_⟩
    · simp only [left, hweight, List.length_nil]
      omega
    · rw [run, run, writeAll]
      simp only
      rw [hflush]
      rfl
  | got hwants hread =>
    next method stage r bytes clock t =>
    refine .inr ⟨_, rfl, Stream.weight_lt_of_read_data s.perRead_pos hread, ?_⟩
    have hreader := reader_received (Reply.Reader.keeps_of_wants hwants).2 bytes
    have hrun : Exchange.run false now link s (.receiving method stage) =
        receive false clock link (r.received bytes) t := by
      rw [run, ← reader, receive_of_wants hwants, hread]
    rw [hrun, ← hreader]
    exact receive_buffer false clock link _ _ t
  | waitsToWrite hrun => exact .inl ⟨rfl, hrun.symm⟩
  | waitsToRead _ hrun => exact .inl ⟨rfl, hrun.symm⟩
  | completed _ hrun => exact .inl ⟨rfl, hrun.symm⟩
  | ended hrun => exact .inl ⟨rfl, hrun.symm⟩
  | failed hrun => exact .inl ⟨rfl, hrun.symm⟩

/-- **A move tells the truth.** -/
theorem move_tells (now : Nat) (link : Link) (s : Stream) (x : Exchange) :
    s.Tells (x.move now link s).passed (x.move now link s).progress.stream := by
  have hmoved := moved now link s x
  generalize x.move now link s = m at hmoved ⊢
  cases hmoved with
  | @wrote method b rest n t hwrite =>
    have htells := s.tells_write (b :: rest)
    rw [hwrite] at htells
    exact htells
  | @flushed method t hflush =>
    have htells := s.tells_flush
    rw [hflush] at htells
    exact htells
  | @got method stage r bytes clock t hwants hread =>
    have htells := s.tells_read false now s.perRead
    rw [hread] at htells
    exact htells
  | waitsToWrite _ hsilent => exact hsilent
  | waitsToRead _ _ hsilent => exact hsilent
  | completed => exact .refl s
  | ended _ hsilent => exact hsilent
  | failed _ hsilent => exact hsilent

/-- **A move changes only the buffer and the use of its link.** -/
theorem move_leaves (now : Nat) {link : Link} (h : link.reusable = false) (s : Stream)
    (x : Exchange) : Leaves link (x.move now link s).progress := by
  have hmoved := moved now link s x
  generalize x.move now link s = m at hmoved ⊢
  cases hmoved with
  | wrote => exact .paused h _ _ _ link.buffer _
  | flushed => exact .paused h _ _ _ link.buffer _
  | got => exact .paused h _ _ _ _ _
  | waitsToWrite => exact .paused h _ _ _ link.buffer _
  | waitsToRead => exact .paused h _ _ _ _ _
  | completed => exact .completed _ _ _ _ _ _ _
  | ended => exact .completed _ _ _ _ _ _ _
  | failed => exact .finished h _ _ _ _

end Exchange

/-- Sending goes on from where taking the link into use has stopped. -/
theorem Link.send_begun (now : Nat) (link : Link) (request : Outgoing) (s : Stream) :
    let p := (link.begun now request s).progress
    (∃ error, p.outcome = .finished (.error error) ∧ link.send false now request s = p) ∨
      ∃ x, p.outcome = .waiting x none ∧
        link.send false now request s = x.run false p.now p.link p.stream := by
  rw [begun, send]
  obtain ⟨link, _ | x⟩ := link.begin request
  · exact .inl ⟨_, rfl, rfl⟩
  · exact .inr ⟨x, rfl, rfl⟩

/-- Taking a link into use leaves it in use. -/
theorem Link.begun_leaves (now : Nat) (link : Link) (request : Outgoing) (s : Stream) :
    Exchange.Leaves link (link.begun now request s).progress := by
  have hleaves : Exchange.Leaves { link with reusable := false }
      (link.begun now request s).progress := by
    rw [begun, begin]
    cases request.encode? link.viaProxy with
    | error error => exact .finished rfl _ _ link.buffer _
    | ok bytes => exact .paused rfl _ _ _ link.buffer _
  exact ⟨hleaves.same, hleaves.settled, hleaves.inUse⟩

/-! ### The record of an exchange -/

namespace Exchange

/-- How far an exchange has come, told by what has passed on its link since it began: the bytes
written and those still to write are the request; and the reader stands where a new reader stands
that has been given all that was read. -/
def UnderWay (link : Link) (request : Outgoing) (passed : List LinkEvent) (x : Exchange) : Prop :=
  match x with
  | sending method rest =>
    method = request.method ∧ link.buffer = [] ∧
      ∃ writes : List Bytes, passed = writes.map .wrote ∧
        request.encode? link.viaProxy = .ok (writes.flatten ++ rest)
  | receiving method stage =>
    method = request.method ∧
      ∃ writes reads : List Bytes, passed = writes.map .wrote ++ .flushed :: reads.map .got ∧
        request.encode? link.viaProxy = .ok writes.flatten ∧
        ∀ more, ((reader link method stage).received more).advance =
          (Reply.Reader.start request.method link.maxBody (reads.flatten ++ more)).advance

variable {link : Link} {request : Outgoing} {passed : List LinkEvent} {x y : Exchange}

/-- Taking a link with nothing left over into use: the request cannot be written, or nothing of it
has been. -/
theorem begun_cases (now : Nat) (request : Outgoing) (s : Stream) (hbuffer : link.buffer = []) :
    let m := link.begun now request s
    m.passed = [.began request] ∧ m.progress.link = { link with reusable := false } ∧
      ((∃ error, m.progress.outcome = .finished (.error error)) ∨
        ∃ x, m.progress.outcome = .waiting x none ∧ x.UnderWay m.progress.link request []) := by
  rw [Link.begun, Link.begin]
  cases hencode : request.encode? link.viaProxy with
  | error error => exact ⟨rfl, rfl, .inl ⟨error, rfl⟩⟩
  | ok bytes => exact ⟨rfl, rfl, .inr ⟨_, rfl, rfl, hbuffer, [], rfl, hencode⟩⟩

/-- A reader that asks for more still stands where all that was read puts it. -/
theorem follows_of_wants {method : Method} {stage : Reply.Stage} {all : Bytes} {r : Reply.Reader}
    (hfollows : ∀ more, ((reader link method stage).received more).advance =
      (Reply.Reader.start method link.maxBody (all ++ more)).advance)
    (hwants : (reader link method stage).advance = .wants r) (more : Bytes) :
    (r.received more).advance = (Reply.Reader.start method link.maxBody (all ++ more)).advance := by
  have hstart : (Reply.Reader.start method link.maxBody all).advance = .wants r := by
    rw [← hwants, ← Reply.Reader.received_nil (reader link method stage), hfollows,
      List.append_nil]
  exact (Reply.Reader.advance_received_of_wants (Reply.Reader.placed_start _ _ _) hstart more).symm

/-- **What a move adds to the record of an exchange that goes on.** -/
theorem UnderWay.move (hx : UnderWay link request passed x) {now : Nat} {s : Stream}
    {wake : Option Nat} (h : (x.move now link s).progress.outcome = .waiting y wake) :
    UnderWay (x.move now link s).progress.link request
      (passed ++ (x.move now link s).passed) y := by
  have hmoved := moved now link s x
  generalize x.move now link s = m at hmoved h ⊢
  cases hmoved with
  | wrote hwrite =>
    cases h
    obtain ⟨hmethod, hbuffer, writes, rfl, hencode⟩ := hx
    next b rest n t =>
    refine ⟨hmethod, hbuffer, writes ++ [b :: rest.take n], ?_, ?_⟩
    · rw [List.map_append]
      rfl
    · rw [hencode]
      simp
  | flushed hflush =>
    cases h
    obtain ⟨hmethod, hbuffer, writes, rfl, hencode⟩ := hx
    rw [List.append_nil] at hencode
    refine ⟨hmethod, writes, [], rfl, hencode, fun more => ?_⟩
    rw [← hmethod, reader, hbuffer]
    rfl
  | got hwants hread =>
    cases h
    obtain ⟨hmethod, writes, reads, rfl, hencode, hfollows⟩ := hx
    next method stage r bytes clock t =>
    subst hmethod
    obtain ⟨hkept, hmax⟩ := Reply.Reader.keeps_of_wants hwants
    refine ⟨hkept, writes, reads ++ [bytes], ?_, hencode, fun more => ?_⟩
    · simp
    · rw [reader_received hmax, Reply.Reader.received_received, follows_of_wants hfollows hwants]
      simp
  | waitsToWrite hrun =>
    cases h
    rw [List.append_nil]
    exact hx
  | waitsToRead hwants hrun =>
    cases h
    obtain ⟨hmethod, writes, reads, rfl, hencode, hfollows⟩ := hx
    next method stage r clock t =>
    subst hmethod
    obtain ⟨hkept, hmax⟩ := Reply.Reader.keeps_of_wants hwants
    refine ⟨hkept, writes, reads, List.append_nil _, hencode, fun more => ?_⟩
    have hreader := reader_received hmax []
    rw [List.append_nil, Reply.Reader.received_nil] at hreader
    rw [hreader]
    exact follows_of_wants hfollows hwants more
  | completed => cases h
  | ended => cases h
  | failed => cases h

theorem leavesReusable_iff {head : Reply.Head} {delimited : Bool} {buffer : Bytes} :
    leavesReusable head delimited buffer = true ↔
      delimited = true ∧ head.asksToClose = false ∧ head.version = "HTTP/1.1" ∧
        head.status ≠ 101 ∧ buffer = [] := by
  simp [leavesReusable, and_assoc]

/-- An exchange that fails does not make its link fit for use. -/
theorem reusable_of_failed {now : Nat} {s : Stream} {error : CallError}
    (hlink : link.reusable = false)
    (h : (x.move now link s).progress.outcome = .finished (.error error)) :
    (x.move now link s).progress.link.reusable = false := by
  have hmoved := moved now link s x
  generalize x.move now link s = m at hmoved h ⊢
  cases hmoved with
  | failed => exact hlink
  | _ => cases h

/-- **An exchange that leaves its link fit for use was a whole one.** -/
theorem UnderWay.exchanged (hx : UnderWay link request passed x) {now : Nat} {s : Stream}
    (hlink : link.reusable = false) (h : (x.move now link s).progress.link.reusable = true) :
    ∃ e : Exchanged link.viaProxy link.maxBody,
      e.events = .began request :: (passed ++ (x.move now link s).passed) := by
  have hmoved := moved now link s x
  generalize x.move now link s = m at hmoved h ⊢
  have hkeeps {p : Prop} (hreusable : link.reusable = true) : p := by
    rw [hlink] at hreusable
    cases hreusable
  cases hmoved with
  | wrote => exact hkeeps h
  | flushed => exact hkeeps h
  | got => exact hkeeps h
  | waitsToWrite => exact hkeeps h
  | waitsToRead => exact hkeeps h
  | completed hcomplete hrun =>
    obtain ⟨hmethod, writes, reads, rfl, hencode, hfollows⟩ := hx
    obtain ⟨rfl, hkeeps, hversion, hstatus, rfl⟩ := leavesReusable_iff.1 h
    have hreplied := hfollows []
    rw [Reply.Reader.received_nil, hcomplete, List.append_nil] at hreplied
    exact ⟨⟨request, writes, reads, _, _, hencode, hreplied.symm, hversion, hkeeps, hstatus⟩,
      by rw [List.append_nil, Exchanged.events]⟩
  | ended => cases h
  | failed => exact hkeeps h

end Exchange

end HttpExchange
