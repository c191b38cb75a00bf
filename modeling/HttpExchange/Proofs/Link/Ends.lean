import HttpExchange.Proofs.Link.Await

/-!
# Receiving a reply ends

Interim heads, chunks and trailers are each read in a loop, and within each of them there is
waiting: for the end of a head or of a line, or for some number of bytes.  A pass through a loop may
find all it needs at hand and read nothing, and a read may bring nothing that is used up at once.
But a byte is either used up or not, and either read or not:

* `Reader.length_lt_of_again` — every move of a reader uses up bytes at hand, as no chunk is empty;
* `Course` / `Course.less` — so on a course of moves and reads the bytes that are not used up, at
  hand or unread, get fewer with every move, and the unread with every read;
* `Passes.less` — in particular, fewer with every pass through one of the loops;
* `exists_course` — which leads to where there is neither a move nor a read;
* `receive_ends` — so an exchange ends, with a reply or an error.
-/

namespace HttpExchange

namespace Reply

/-- A chunk that is waited for has some data. -/
def Stage.Sized : Stage → Prop
  | chunkData _ _ size => 0 < size
  | _ => True

theorem Stage.sized_of_rank {stage : Stage} (h : stage.rank = 0) : stage.Sized := by
  cases stage with
  | chunkData => cases h
  | _ => exact trivial

theorem Stage.sized_of_anew {stage other : Stage} (h : stage.anew = other.anew)
    (hsized : other.Sized) : stage.Sized := by
  cases stage with
  | chunkData head body size =>
    cases other with
    | chunkData =>
      cases h
      exact hsized
    | _ => cases h
  | _ => exact trivial

namespace Reader

variable {r s : Reader} {head line rest : Bytes}

/-! ### Moves use up bytes -/

theorem sized_of_onHead (h : r.onHead head rest = .again s) : s.stage.Sized := by
  obtain ⟨stage, hmove, hrank⟩ | ⟨verdict, hmove, -⟩ := r.onHead_cases head rest
  · cases hmove.symm.trans h
    exact Stage.sized_of_rank hrank
  · cases hmove.symm.trans h

/-- A size of zero is not that of a chunk: it announces the trailers. -/
theorem sized_of_onLine (h : r.onLine line rest = .again s) : s.stage.Sized := by
  rw [onLine] at h
  split at h
  · split at h
    · cases h
    · cases h
      exact trivial
    · next size hsize _ =>
      split at h
      · cases h
      · cases h
        exact Nat.pos_of_ne_zero hsize
  all_goals
    repeat' split at h
    all_goals first | (cases h; exact trivial) | cases h

/-- **Every move uses up bytes at hand.** -/
theorem length_lt_of_again (hsized : r.stage.Sized) (h : r.step = .again s) :
    s.buffer.length < r.buffer.length ∧ s.stage.Sized := by
  cases hstage : r.stage with
  | head searched =>
    rw [step_of_head hstage] at h
    split at h
    · next place hfind =>
      obtain ⟨hge, hle⟩ := Bytes.find?_add_length_le hfind
      rw [List.length_drop, show headEnd.length = 4 from rfl] at hle
      have hleft := r.left_onHead (r.buffer.take (place + 4)) (r.buffer.drop (place + 4))
      rw [h] at hleft
      have hbuffer : s.buffer = r.buffer.drop (place + 4) := hleft
      refine ⟨?_, sized_of_onHead h⟩
      rw [hbuffer, List.length_drop]
      omega
    · split at h <;> cases h
  | chunkSize | chunkEnd | trailers =>
    rw [step_of_awaitsLine (by rw [hstage]; rfl)] at h
    split at h
    · next line rest hcut =>
      have hleft := r.left_onLine line rest
      rw [h] at hleft
      have hbuffer : s.buffer = rest := hleft
      rw [hbuffer]
      exact ⟨length_lt_of_cutLine hcut, sized_of_onLine h⟩
    · cases h
  | chunkData head body size =>
    rw [hstage] at hsized
    have hpos : 0 < size := hsized
    simp only [step, hstage] at h
    split at h
    · cases h
    · cases h
      refine ⟨?_, trivial⟩
      show (r.buffer.drop size).length < _
      rw [List.length_drop]
      omega
  | counted | untilEnd =>
    simp only [step, hstage] at h
    split at h <;> cases h

end Reader

end Reply

namespace Exchange

open Reply (Stage)

/-! ### Courses -/

/-- The bytes that are not used up, at hand or unread. -/
def Standing.unconsumed (c : Standing) : Nat := c.whole.length

/-- The bytes that are unread. -/
def Standing.unread (c : Standing) : Nat := c.stream.delivered.length

/-- A course of so many moves of the reader and so many reads where it waits. -/
inductive Course : Nat → Nat → Standing → Standing → Prop
  | refl (c : Standing) : Course 0 0 c c
  | move {moves reads : Nat} {c d : Standing} {r : Reply.Reader} (step : c.reader.step = .again r)
      (rest : Course moves reads { c with reader := r } d) : Course (moves + 1) reads c d
  | read {moves reads clock : Nat} {c d : Standing} {u : Reply.Reader} {bytes : Bytes} {t : Stream}
      (step : c.reader.step = .stop (.wants u))
      (read : c.stream.read true c.now c.stream.perRead = (.data bytes, clock, t))
      (rest : Course moves reads ⟨clock, u.received bytes, t⟩ d) : Course moves (reads + 1) c d

/-- There is neither a move nor a read. -/
structure Standing.Halts (c : Standing) : Prop where
  moves : ∀ r, c.reader.step ≠ .again r
  reads : ∀ u, c.reader.step = .stop (.wants u) → ∀ bytes clock t,
    c.stream.read true c.now c.stream.perRead ≠ (.data bytes, clock, t)

variable {c d : Standing} {moves reads : Nat}

/-- **A move leaves fewer bytes that are not used up**, and the stream as it is. -/
theorem less_of_move {r : Reply.Reader} (hsized : c.reader.stage.Sized)
    (hstep : c.reader.step = .again r) :
    ({ c with reader := r } : Standing).unconsumed < c.unconsumed ∧ r.stage.Sized := by
  obtain ⟨hless, hnext⟩ := Reply.Reader.length_lt_of_again hsized hstep
  refine ⟨?_, hnext⟩
  show (r.buffer ++ c.stream.delivered).length < (c.reader.buffer ++ c.stream.delivered).length
  rw [List.length_append, List.length_append]
  omega

/-- **A read where a reader waits leaves fewer bytes unread**, and as many that are not used up.
The reader still waits for the same, or finds it, and the stream ends as it did. -/
theorem less_of_read {u : Reply.Reader} {bytes : Bytes} {clock : Nat} {t : Stream}
    (hstep : c.reader.step = .stop (.wants u))
    (hread : c.stream.read true c.now c.stream.perRead = (.data bytes, clock, t)) :
    let d : Standing := ⟨clock, u.received bytes, t⟩
    d.unread < c.unread ∧ d.unconsumed = c.unconsumed ∧
      d.reader.stage.anew = c.reader.stage.anew ∧ d.stream.ending = c.stream.ending := by
  intro d
  have hawaits : Awaits c d := .read hstep hread
  have hbrings := c.stream.read_brings c.now c.stream.perRead_pos
  rw [hread] at hbrings
  cases hbrings with
  | data nonempty alike delivers ends =>
    refine ⟨?_, congrArg List.length hawaits.whole, hawaits.stage, ends.symm⟩
    have hpos := List.length_pos_iff.2 nonempty
    show t.delivered.length < c.stream.delivered.length
    rw [Stream.delivered_of_read hread, List.length_append]
    omega

/-- What a course leaves: of the bytes that are not used up, fewer by its moves at least, and of the
unread ones fewer by its reads. -/
structure Less (moves reads : Nat) (c d : Standing) : Prop where
  unconsumed : d.unconsumed + moves ≤ c.unconsumed
  unread : d.unread + reads ≤ c.unread
  sized : d.reader.stage.Sized
  ending : d.stream.ending = c.stream.ending

/-- **A course uses up bytes with every move, and reads some with every read.** -/
theorem Course.less (h : Course moves reads c d) (hsized : c.reader.stage.Sized) :
    Less moves reads c d := by
  induction h with
  | refl c => exact ⟨Nat.le_refl _, Nat.le_refl _, hsized, rfl⟩
  | @move moves reads c d r hstep _ ih =>
    obtain ⟨hless, hnext⟩ := less_of_move hsized hstep
    obtain ⟨hunconsumed, hunread, hlast, hending⟩ := ih hnext
    exact ⟨by omega, hunread, hlast, hending⟩
  | @read moves reads clock c d u bytes t hstep hread _ ih =>
    obtain ⟨hless, hsame, hstage, hends⟩ := less_of_read hstep hread
    obtain ⟨hunconsumed, hunread, hlast, hending⟩ := ih (Stage.sized_of_anew hstage hsized)
    exact ⟨by omega, by omega, hlast, hending.trans hends⟩

/-! ### The loops -/

/-- The loops in which a reply is read. -/
inductive Loop
  /-- Head after head, up to the first that is not interim. -/
  | heads
  /-- Chunk after chunk. -/
  | chunks
  /-- Line after line behind the last chunk. -/
  | trailers
  deriving DecidableEq, Repr

/-- Where a pass through a loop begins. -/
def Loop.Begins : Loop → Stage → Prop
  | heads, .head searched => searched = 0
  | chunks, .chunkSize _ _ => True
  | trailers, .trailers _ _ => True
  | _, _ => False

/-- A pass through a loop, or several: a course with some move from its beginning to its beginning,
however much is read on it. -/
def Passes (loop : Loop) (c d : Standing) : Prop :=
  loop.Begins c.reader.stage ∧ loop.Begins d.reader.stage ∧
    ∃ moves reads, Course (moves + 1) reads c d

/-- **Each pass through a loop uses up bytes.** -/
theorem Passes.less {loop : Loop} (h : Passes loop c d) (hsized : c.reader.stage.Sized) :
    d.unconsumed < c.unconsumed := by
  obtain ⟨-, -, moves, reads, hcourse⟩ := h
  have hless := (hcourse.less hsized).unconsumed
  omega

/-! ### To the end -/

/-- Receiving goes on behind a move. -/
theorem receive_of_again {patient : Bool} {now : Nat} {link : Link} {r u : Reply.Reader}
    {s : Stream} (h : r.step = .again u) :
    receive patient now link r s = receive patient now link u s := by
  have hadvance := Reply.Reader.advance_of_again h
  cases hverdict : u.advance with
  | complete head body delimited buffer =>
    rw [receive_of_complete hverdict, receive_of_complete (hadvance.trans hverdict)]
  | failed error buffer =>
    rw [receive_of_failed hverdict, receive_of_failed (hadvance.trans hverdict)]
  | wants v => rw [receive_of_wants hverdict, receive_of_wants (hadvance.trans hverdict)]

/-- **A course leads to where there is neither a move nor a read**, and it is as good to receive
from there. -/
theorem exists_course (link : Link) (hsized : c.reader.stage.Sized) :
    ∃ moves reads d, Course moves reads c d ∧ d.Halts ∧
      receive true c.now link c.reader c.stream = receive true d.now link d.reader d.stream := by
  induction hmeasure : c.unconsumed + c.unread using Nat.strong_induction_on generalizing c with
  | _ measure ih =>
    cases hstep : c.reader.step with
    | again r =>
      -- A move: the stream is the same, and less is not used up.
      obtain ⟨hless, hnext⟩ := less_of_move hsized hstep
      have hsmaller : ({ c with reader := r } : Standing).unconsumed + c.unread < measure := by
        omega
      obtain ⟨moves, reads, d, hcourse, hhalts, hreceive⟩ := ih _ hsmaller hnext rfl
      exact ⟨moves + 1, reads, d, .move hstep hcourse, hhalts,
        (receive_of_again hstep).trans hreceive⟩
    | stop verdict =>
      by_cases hreads : ∃ u bytes clock t, verdict = .wants u ∧
          c.stream.read true c.now c.stream.perRead = (.data bytes, clock, t)
      · -- A read: less is unread, and as much is not used up.
        obtain ⟨u, bytes, clock, t, rfl, hread⟩ := hreads
        obtain ⟨hless, hsame, hstage, -⟩ := less_of_read hstep hread
        have hsmaller : Standing.unconsumed ⟨clock, u.received bytes, t⟩ +
            Standing.unread ⟨clock, u.received bytes, t⟩ < measure := by omega
        obtain ⟨moves, reads, d, hcourse, hhalts, hreceive⟩ :=
          ih _ hsmaller (Stage.sized_of_anew hstage hsized) rfl
        refine ⟨moves, reads + 1, d, .read hstep hread hcourse, hhalts, ?_⟩
        rw [receive_of_wants (Reply.Reader.advance_of_stop hstep), hread]
        exact hreceive
      · refine ⟨0, 0, c, .refl c, ⟨fun r hagain => ?_, fun u hwants bytes clock t hread => ?_⟩, rfl⟩
        · cases hstep.symm.trans hagain
        · cases hstep.symm.trans hwants
          exact hreads ⟨u, bytes, clock, t, rfl, hread⟩

/-- Where there is neither a move nor a read, an exchange is over, if its stream ends. -/
theorem Standing.Halts.finished (h : d.Halts) (hends : d.stream.ending ≠ .never) (link : Link) :
    ∃ result, (receive true d.now link d.reader d.stream).outcome = .finished result := by
  cases hstep : d.reader.step with
  | again r => exact absurd hstep (h.moves r)
  | stop verdict =>
    have hadvance := Reply.Reader.advance_of_stop hstep
    cases verdict with
    | complete head body delimited buffer =>
      rw [receive_of_complete hadvance]
      exact ⟨_, rfl⟩
    | failed error buffer =>
      rw [receive_of_failed hadvance]
      exact ⟨_, rfl⟩
    | wants u =>
      have hbrings := d.stream.read_brings d.now d.stream.perRead_pos
      rw [receive_of_wants hadvance]
      rcases hread : d.stream.read true d.now d.stream.perRead with ⟨reading, clock, t⟩
      rw [hread] at hbrings
      cases hbrings with
      | data => exact absurd hread (h.reads u hstep _ clock t)
      | ended =>
        dsimp only
        cases u.ended <;> exact ⟨_, rfl⟩
      | failed => exact ⟨_, rfl⟩
      | waiting alike delivers ends => exact absurd ends hends

/-- **Receiving a reply ends.**  The stream delivers some bytes and then ends, or reading fails;
whatever the bytes and wherever they are cut, the method, the limit on the body and the bytes at
hand, an exchange comes to a reply or to an error.  It does so on a course of moves and reads, no
more of them than there are bytes not used up and bytes unread; and wherever it stands on that,

* a pass through the loop of the interim heads, of the chunks or of the trailers leaves fewer bytes
  that are not used up, at hand or unread, and so does any move;
* a read where it waits leaves fewer bytes unread, as many that are not used up, and what it waits
  for. -/
theorem receive_ends (link : Link) (method : Method) (maxBody : Nat) (buffer : Bytes) (now : Nat)
    {s : Stream} (hends : s.ending ≠ .never) :
    let start : Standing := ⟨now, .start method maxBody buffer, s⟩
    (∃ result, (receive true now link start.reader s).outcome = .finished result) ∧
    (∃ moves reads last, Course moves reads start last ∧ last.Halts ∧
      receive true now link start.reader s = receive true last.now link last.reader last.stream ∧
      moves ≤ buffer.length + s.delivered.length ∧ reads ≤ s.delivered.length) ∧
    ∀ moves reads c, Course moves reads start c →
      (∀ loop d, Passes loop c d → d.unconsumed < c.unconsumed) ∧
      (∀ r, c.reader.step = .again r →
        ({ c with reader := r } : Standing).unconsumed < c.unconsumed) ∧
      (∀ u bytes clock t, c.reader.step = .stop (.wants u) →
        c.stream.read true c.now c.stream.perRead = (.data bytes, clock, t) →
        t.delivered.length < c.stream.delivered.length ∧
          Standing.unconsumed ⟨clock, u.received bytes, t⟩ = c.unconsumed ∧
          u.stage.anew = c.reader.stage.anew) := by
  intro start
  have hsized : start.reader.stage.Sized := trivial
  obtain ⟨moves, reads, last, hcourse, hhalts, hreceive⟩ := exists_course link hsized
  have hless := hcourse.less hsized
  refine ⟨?_, ⟨moves, reads, last, hcourse, hhalts, hreceive, ?_, ?_⟩, ?_⟩
  · have hlast : last.stream.ending ≠ .never := by
      rw [hless.ending]
      exact hends
    obtain ⟨result, hfinished⟩ := hhalts.finished hlast link
    exact ⟨result, (congrArg Progress.outcome hreceive).trans hfinished⟩
  · have hunconsumed := hless.unconsumed
    have hwhole : start.unconsumed = buffer.length + s.delivered.length := List.length_append
    omega
  · have hunread := hless.unread
    have hall : start.unread = s.delivered.length := rfl
    omega
  · intro moves reads c hreached
    have hnow := (hreached.less hsized).sized
    refine ⟨fun loop d hpasses => hpasses.less hnow, fun r hstep => (less_of_move hnow hstep).1, ?_⟩
    intro u bytes clock t hstep hread
    obtain ⟨hunread, hsame, hstage, -⟩ := less_of_read hstep hread
    exact ⟨hunread, hsame, hstage⟩

/-- Interim heads without end come in pieces, until reading fails. -/
def interimHeads : Stream :=
  { reads := [.data (Utf8.encode "HTTP/1.1 100 \r\n\r\nHTTP/1.1 1"), .sleep 5,
      .data (Utf8.encode "00 \r\n\r\n"), .fail ⟨.other, "reset"⟩] }

theorem receive_ends_interimHeads :
    let link : Link := { id := 0, destination := ⟨"http", "a", 80⟩, address := ⟨.ipv4 0, 80⟩ }
    ∃ result, (receive true 0 link (.start .get 0 []) interimHeads).outcome = .finished result :=
  (receive_ends _ .get 0 [] 0 (by decide)).1

end Exchange

end HttpExchange
