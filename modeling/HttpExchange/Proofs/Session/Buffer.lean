import Mathlib
import HttpExchange.Proofs.Session.Conclusion

/-!
# A session in its one buffer

A session is said with lists of bytes, where nothing can be out of range.  Here it is laid out as it
is held: there is one buffer, as long as a read may be, that every read writes over from its front;
there is one body, which grows; and what is cut out of the buffer, and what is missing of the body,
are worked out from offsets and lengths.  A difference that would be negative and a cut that is not
inside the buffer have no result.

* `Bench` / `Bench.step?` — a session laid out, and its one move, where that has a result;
* `Bench.Sound` — what holds of the buffer, the body and the length that is expected;
* `append?_comes`, `afterHead?_comes`, `parse?_comes` — one job after the other has a result, in a
  sound bench and in the phase of the session;
* `Bench.step?_comes` — so has every move;
* `Bench.passes_iff`, `Bench.arithmetic_safe` — so every run of a session is a run in its buffer,
  and nothing in it is ever out of range.
-/

namespace HttpExchange.Session

/-! ### Offsets and lengths -/

/-- A difference, unless it is negative. -/
def minus? (a b : Nat) : Option Nat := if b ≤ a then some (a - b) else none

/-- The bytes between two offsets, if these are in order and inside. -/
def slice? (bytes : Bytes) (start stop : Nat) : Option Bytes :=
  if start ≤ stop ∧ stop ≤ bytes.length then some ((bytes.take stop).drop start) else none

theorem minus?_of_le {a b : Nat} (h : b ≤ a) : minus? a b = some (a - b) := if_pos h

theorem slice?_of_le {bytes : Bytes} {start stop : Nat} (hstart : start ≤ stop)
    (hstop : stop ≤ bytes.length) :
    slice? bytes start stop = some ((bytes.take stop).drop start) := if_pos ⟨hstart, hstop⟩

/-! ### A session laid out -/

/-- Where a session is. -/
inductive State
  /-- Nothing has been read. -/
  | reading
  /-- A part of the head has been read. -/
  | parsingHeaders
  | awaitingBody
  | dispatching
  | writing (delivery : Delivery)
  | shuttingDown
  | closed
  deriving DecidableEq, Repr

/-- Whether the head is being read. -/
def State.readsHead : State → Bool
  | reading | parsingHeaders => true
  | _ => false

/-- Whether anything is being read. -/
def State.reads : State → Bool
  | reading | parsingHeaders | awaitingBody => true
  | _ => false

theorem State.reads_of_readsHead {state : State} (h : state.readsHead = true) :
    state.reads = true := by
  cases state with
  | reading | parsingHeaders => rfl
  | _ => cases h

/-- A session laid out.  The first `filled` bytes of the buffer are those of the last read. -/
structure Bench where
  state : State := .reading
  buffer : Bytes
  filled : Nat := 0
  reader : Head.Reader
  draft : Head.Draft := {}
  body : Array UInt8 := #[]
  /-- The declared length of the body. -/
  expected : Nat := 0
  requests : List Request := []
  notices : List Notice := []
  deriving DecidableEq, Repr

namespace Bench

/-- A bench before the first read: the buffer has room for one byte at least. -/
def ofLimits (limits : ServingLimits) : Bench :=
  { buffer := List.replicate (max limits.readSize 1) 0, reader := .ofLimit limits.maxHead }

/-- The bench in another state. -/
def goto (b : Bench) (state : State) : Bench := { b with state }

/-- The bench closed, with something to report. -/
def closeWith (b : Bench) (notice : Notice) : Bench :=
  { b with state := .closed, notices := b.notices ++ [notice] }

/-- Answers with a stock reply. -/
def reject (b : Bench) (status : Status) : Bench :=
  b.goto (.writing (.ofResponse (.stock status)))

/-- The bytes of the last read. -/
def held (b : Bench) : Bytes := b.buffer.take b.filled

/-- The buffer with the bytes of one read at its front. -/
def filledWith (b : Bench) (bytes : Bytes) : Bench :=
  { b with buffer := bytes ++ b.buffer.drop bytes.length, filled := bytes.length }

/-- Adds bytes to the body. -/
def grown (b : Bench) (bytes : Bytes) : Bench :=
  let body := b.body ++ bytes
  { b with body, state := if b.expected ≤ body.size then .dispatching else .awaitingBody }

/-- Adds the bytes between two offsets to the body, never past its declared length. -/
def append? (b : Bench) (start stop : Nat) : Option Bench := do
  let missing ← minus? b.expected b.body.size
  let there ← minus? stop start
  return b.grown (← slice? b.buffer start (start + min there missing))

/-- What follows a head that ends at an offset of the buffer. -/
def afterHead? (limits : ServingLimits) (b : Bench) (consumed : Nat) : Option Bench :=
  if b.draft.method.expectsBody then
    match b.draft.request.contentLength? with
    | none | some (.error _) => some (b.reject .badRequest)
    | some (.ok length) =>
      if length = 0 then some (b.goto .dispatching)
      else if limits.maxBody < length then some (b.reject .payloadTooLarge)
      else append? { b with expected := length } consumed b.filled
  else some (b.goto .dispatching)

/-- Reads on in the head. -/
def parse? (limits : ServingLimits) (b : Bench) : Option Bench := do
  let input ← slice? b.buffer 0 b.filled
  match b.reader.feed b.draft input with
  | ⟨.incomplete, reader, draft⟩ => return { b with reader, draft, state := .parsingHeaders }
  | ⟨.failed _, reader, draft⟩ => return ({ b with reader, draft } : Bench).reject .badRequest
  | ⟨.complete consumed, reader, draft⟩ => afterHead? limits { b with reader, draft } consumed

/-- What follows a read into the buffer. -/
def onFilled? (limits : ServingLimits) (b : Bench) : Option Bench :=
  if b.state = .awaitingBody then b.append? 0 b.filled else b.parse? limits

/-- Calls the handler on an empty response. -/
def dispatch (handler : Handler) (b : Bench) : Bench :=
  let request := b.draft.withBody b.body.toList
  { b with state := .writing (.ofResponse (handlerResponse handler request)),
           requests := b.requests ++ [request] }

/-- What one move of a bench comes to. -/
inductive Move
  | moved (now : Nat) (bench : Bench) (stream : Stream)
  | stalled (bench : Bench) (stream : Stream)
  deriving DecidableEq, Repr

/-- One read into the buffer, and what follows it. -/
def readStep? (limits : ServingLimits) (now : Nat) (b : Bench) (s : Stream) : Option Move :=
  match s.read true now b.buffer.length with
  | (.waiting _, _, s) => some (.stalled b s)
  | (.data bytes, now, s) => do return .moved now (← (b.filledWith bytes).onFilled? limits) s
  | (.failed error, now, s) => some (.moved now (b.closeWith (.readFailed error)) s)
  | (.ended, now, s) =>
    some (.moved now (if b.state = .reading then b.goto .closed else b.closeWith .closedByPeer) s)

/-- One move, where all that is worked out in it has a result. -/
def step? (limits : ServingLimits) (handler : Handler) (now : Nat) (b : Bench) (s : Stream) :
    Option Move :=
  match b.state with
  | .reading | .parsingHeaders | .awaitingBody => b.readStep? limits now s
  | .dispatching => some (.moved now (b.dispatch handler) s)
  | .writing delivery => match delivery.run s with
    | (.waiting, delivery, s) => some (.stalled (b.goto (.writing delivery)) s)
    | (.failed error, _, s) => some (.moved now (b.closeWith (.writeFailed error)) s)
    | (.delivered, _, s) => some (.moved now (b.goto .shuttingDown) s)
  | .shuttingDown => some (.moved now (b.goto .closed) s.shutdown.2)
  | .closed => some (.stalled b s)

/-- Where a session stands in its buffer before each of its moves. -/
inductive Reaches (limits : ServingLimits) (handler : Handler) (s : Stream) :
    Nat → Bench → Stream → Prop
  | start : Reaches limits handler s 0 (ofLimits limits) s
  | move {now clock : Nat} {b d : Bench} {t u : Stream}
      (before : Reaches limits handler s now b t)
      (step : b.step? limits handler now t = some (.moved clock d u)) :
      Reaches limits handler s clock d u

/-! ### The session that is laid out -/

/-- How far the session has come. -/
def phase (b : Bench) : Phase :=
  match b.state with
  | .reading => .reading b.reader b.draft false
  | .parsingHeaders => .reading b.reader b.draft true
  | .awaitingBody => .awaitingBody b.draft.request b.expected b.body
  | .dispatching => .dispatching (b.draft.withBody b.body.toList)
  | .writing delivery => .writing delivery
  | .shuttingDown => .shuttingDown
  | .closed => .closed

/-- The session, without the buffer. -/
def session (b : Bench) : Session := ⟨b.phase, b.requests, b.notices⟩

/-- The move of the session, without the buffer. -/
def Move.view : Move → Step
  | moved now b s => .moved now b.session s
  | stalled b s => .stalled b.session s

/-- The bench that a move leaves. -/
def Move.bench : Move → Bench
  | moved _ b _ => b
  | stalled b _ => b

/-- What holds between the moves: the buffer has its length and is filled up to somewhere inside;
the body is not longer than what is expected, and that is not longer than it may be; there is no
body before the head has been read, and not all of it as long as it is awaited. -/
structure Sound (limits : ServingLimits) (b : Bench) : Prop where
  room : b.buffer.length = max limits.readSize 1
  inside : b.filled ≤ b.buffer.length
  within : b.body.size ≤ b.expected
  allowed : b.expected ≤ limits.maxBody
  headFirst : b.state.readsHead = true → b.body = #[]
  missing : b.state = .awaitingBody → b.body.size < b.expected

variable {limits : ServingLimits} {handler : Handler} {now clock : Nat} {b d : Bench}
  {s t : Stream}

theorem sound_ofLimits (limits : ServingLimits) : (ofLimits limits).Sound limits where
  room := List.length_replicate
  inside := Nat.zero_le _
  within := Nat.le_refl _
  allowed := Nat.zero_le _
  headFirst := fun _ => rfl
  missing := nofun

/-- Once nothing is read any more, the bytes stay as they are and the bench stays sound. -/
theorem Sound.done (h : b.Sound limits) (hreads : d.state.reads = false)
    (hsame : (d.buffer, d.filled, d.body, d.expected) =
      (b.buffer, b.filled, b.body, b.expected)) : d.Sound limits := by
  simp only [Prod.mk.injEq] at hsame
  obtain ⟨hbuffer, hfilled, hbody, hexpected⟩ := hsame
  refine ⟨hbuffer ▸ h.room, ?_, ?_, hexpected ▸ h.allowed, fun hhead => ?_, fun hstate => ?_⟩
  · rw [hbuffer, hfilled]
    exact h.inside
  · rw [hbody, hexpected]
    exact h.within
  · rw [State.reads_of_readsHead hhead] at hreads
    cases hreads
  · rw [hstate] at hreads
    cases hreads

/-- **A read writes over the front of the buffer**, and keeps it in its length. -/
theorem Sound.filledWith (h : b.Sound limits) {bytes : Bytes}
    (hroom : bytes.length ≤ b.buffer.length) : (b.filledWith bytes).Sound limits where
  room := by
    rw [Bench.filledWith, List.length_append, List.length_drop, ← h.room]
    omega
  inside := by
    rw [Bench.filledWith, List.length_append]
    exact Nat.le_add_right ..
  within := h.within
  allowed := h.allowed
  headFirst := h.headFirst
  missing := h.missing

theorem held_filledWith (b : Bench) (bytes : Bytes) : (b.filledWith bytes).held = bytes :=
  List.take_left

theorem length_held (h : b.filled ≤ b.buffer.length) : b.held.length = b.filled :=
  List.length_take_of_le h

/-! ### Every job has a result -/

/-- A job leads from a bench to a sound one in some phase, with nothing called and nothing
reported. -/
def Comes (limits : ServingLimits) (b : Bench) (job : Option Bench) (phase : Phase) : Prop :=
  ∃ d, job = some d ∧ d.Sound limits ∧ d.session = b.session.goto phase

theorem comes_goto (h : b.Sound limits) {state : State} (hreads : state.reads = false) :
    Comes limits b (some (b.goto state)) (b.goto state).phase :=
  ⟨_, rfl, h.done hreads rfl, rfl⟩

/-- What is cut out of the buffer for the body is what is missing of the bytes that are there. -/
theorem append?_eq (hinside : b.filled ≤ b.buffer.length) (hwithin : b.body.size ≤ b.expected)
    {start : Nat} (hstart : start ≤ b.filled) :
    b.append? start b.filled =
      some (b.grown ((b.held.drop start).take (b.expected - b.body.size))) := by
  have hstop : start + min (b.filled - start) (b.expected - b.body.size) ≤ b.filled := by omega
  have hcut : (b.buffer.take
      (start + min (b.filled - start) (b.expected - b.body.size))).drop start =
        (b.held.drop start).take (b.expected - b.body.size) := by
    rw [List.drop_take, Nat.add_sub_cancel_left, held, List.drop_take, List.take_take, Nat.min_comm]
  rw [append?, minus?_of_le hwithin, minus?_of_le hstart]
  simp only [Option.bind_eq_bind, Option.bind_some]
  rw [slice?_of_le (Nat.le_add_right ..) (Nat.le_trans hstop hinside), hcut]
  rfl

/-- A body that grows by what is missing of some bytes is not longer than it should be. -/
theorem Sound.grown (h : b.Sound limits) (bytes : Bytes) :
    (b.grown (bytes.take (b.expected - b.body.size))).Sound limits where
  room := h.room
  inside := h.inside
  within := by
    have hwithin := h.within
    show (b.body ++ bytes.take (b.expected - b.body.size)).size ≤ b.expected
    rw [size_append_list, List.length_take]
    omega
  allowed := h.allowed
  headFirst := by
    intro hhead
    rw [Bench.grown] at hhead
    dsimp only at hhead
    split at hhead <;> cases hhead
  missing := by
    intro hbody
    rw [Bench.grown] at hbody
    dsimp only at hbody
    split at hbody
    · cases hbody
    · next hshort => exact Nat.lt_of_not_le hshort

theorem session_grown (b : Bench) (bytes : Bytes) :
    (b.grown (bytes.take (b.expected - b.body.size))).session =
      b.session.goto (.addBody b.draft.request b.expected b.body bytes) := by
  rw [session, phase, grown, Phase.addBody]
  by_cases hfull : b.expected ≤ (b.body ++ bytes.take (b.expected - b.body.size)).size
  · simp only [if_pos hfull]
    rfl
  · simp only [if_neg hfull]
    rfl

/-- **The body grows by what it is missing**, up to its declared length. -/
theorem append?_comes (h : b.Sound limits) {start : Nat} (hstart : start ≤ b.filled) :
    Comes limits b (b.append? start b.filled)
      (.addBody b.draft.request b.expected b.body (b.held.drop start)) :=
  ⟨_, append?_eq h.inside h.within hstart, h.grown _, session_grown b _⟩

/-- What follows a head stands in the buffer behind its end. -/
theorem afterHead?_comes (h : b.Sound limits) (hbody : b.body = #[]) {consumed : Nat}
    (hconsumed : consumed ≤ b.filled) :
    Comes limits b (b.afterHead? limits consumed)
      (.afterHead limits b.draft.request (b.held.drop consumed)) := by
  have hdispatch : (b.goto .dispatching).phase = .dispatching b.draft.request := by
    rw [phase, Bench.goto, hbody]
    rfl
  have hplain : Comes limits b (some (b.goto .dispatching)) (b.goto .dispatching).phase :=
    comes_goto h rfl
  rw [hdispatch] at hplain
  rw [afterHead?, Phase.afterHead]
  show Comes limits b (if b.draft.method.expectsBody then _ else _)
    (if b.draft.method.expectsBody then _ else _)
  split
  case isFalse => exact hplain
  case isTrue =>
    cases b.draft.request.contentLength? with
    | none => exact comes_goto h rfl
    | some declared =>
      cases declared with
      | error fault => exact comes_goto h rfl
      | ok length =>
        dsimp only
        split
        · exact hplain
        · split
          · exact comes_goto h rfl
          · next hmost =>
            have hexpects : ({ b with expected := length } : Bench).Sound limits :=
              { h with
                within := by
                  rw [hbody]
                  exact Nat.zero_le _
                allowed := Nat.le_of_not_lt hmost
                missing := fun _ => by
                  rw [hbody]
                  show 0 < length
                  omega }
            obtain ⟨d, hjob, hsound, hview⟩ := append?_comes hexpects hconsumed
            refine ⟨d, hjob, hsound, hview.trans ?_⟩
            show Session.goto _ (.addBody _ length b.body _) = _
            rw [hbody]
            rfl

/-- **A head is read from inside the buffer**, and ends inside. -/
theorem parse?_comes (h : b.Sound limits) (hhead : b.state.readsHead = true) :
    Comes limits b (b.parse? limits) (b.phase.onData limits b.held) := by
  have hbody := h.headFirst hhead
  have hphase : ∃ started, b.phase = .reading b.reader b.draft started := by
    rw [phase]
    cases hstate : b.state with
    | reading => exact ⟨false, rfl⟩
    | parsingHeaders => exact ⟨true, rfl⟩
    | _ =>
      rw [hstate] at hhead
      cases hhead
  obtain ⟨started, hphase⟩ := hphase
  rw [parse?, slice?_of_le (Nat.zero_le _) h.inside, hphase]
  simp only [Option.bind_eq_bind, Option.bind_some, List.drop_zero, Phase.onData]
  rw [show b.buffer.take b.filled = b.held from rfl]
  rcases hfeed : b.reader.feed b.draft b.held with ⟨verdict, reader, draft⟩
  have hread : ({ b with reader, draft } : Bench).Sound limits := { h with }
  cases verdict with
  | incomplete =>
    refine ⟨_, rfl, { h with headFirst := fun _ => hbody, missing := ?_ }, rfl⟩
    intro hstate
    cases hstate
  | failed fault => exact ⟨_, rfl, hread.done rfl rfl, rfl⟩
  | complete consumed =>
    have hconsumed : consumed ≤ b.filled := by
      rw [← length_held h.inside]
      refine Head.Reader.consumed_le_length (r := b.reader) (d := b.draft) ?_
      rw [hfeed]
    obtain ⟨d, hjob, hsound, hview⟩ := afterHead?_comes hread hbody hconsumed
    exact ⟨d, hjob, hsound, hview⟩

/-- What follows a read has a result. -/
theorem onFilled?_comes (h : b.Sound limits) (hreads : b.phase.reads = true) :
    Comes limits b (b.onFilled? limits) (b.phase.onData limits b.held) := by
  rw [onFilled?]
  cases hstate : b.state with
  | reading | parsingHeaders => exact parse?_comes h (by rw [hstate]; rfl)
  | awaitingBody =>
    have happend := append?_comes h (Nat.zero_le b.filled)
    rw [phase, hstate]
    exact happend
  | dispatching | writing | shuttingDown | closed =>
    rw [phase, hstate] at hreads
    cases hreads

/-! ### Every move has a result -/

/-- A session is fresh just before its first read. -/
theorem isFresh_phase (b : Bench) : b.phase.isFresh = decide (b.state = .reading) := by
  rw [phase]
  cases b.state <;> rfl

/-- The bytes of one read are inside the buffer, and what follows them has a result. -/
theorem filledWith_comes (h : b.Sound limits) (hreads : b.phase.reads = true) {bytes : Bytes}
    (hread : s.read true now b.buffer.length = (.data bytes, clock, t)) :
    ∃ d, (b.filledWith bytes).onFilled? limits = some d ∧ d.Sound limits ∧
      d.session = b.session.receive limits bytes := by
  have hfilled := h.filledWith (Stream.length_le_of_read hread)
  have hcomes := onFilled?_comes hfilled hreads
  rw [held_filledWith] at hcomes
  exact hcomes

theorem readStep?_comes (h : b.Sound limits) (hreads : b.phase.reads = true) (now : Nat)
    (s : Stream) :
    ∃ m, b.readStep? limits now s = some m ∧
      m.view = Session.readStep limits now b.session s ∧ m.bench.Sound limits := by
  rw [readStep?, Session.readStep, ← h.room]
  rcases hread : s.read true now b.buffer.length with ⟨reading, clock, t⟩
  cases reading with
  | data bytes =>
    obtain ⟨d, hjob, hsound, hview⟩ := filledWith_comes h hreads hread
    simp only [hjob, Option.bind_eq_bind, Option.bind_some]
    refine ⟨_, rfl, ?_, hsound⟩
    rw [Move.view, hview]
  | ended =>
    have hfresh : b.session.phase.isFresh = decide (b.state = .reading) := isFresh_phase b
    refine ⟨_, rfl, ?_, ?_⟩
    · simp only [Move.view, hfresh, decide_eq_true_eq]
      split <;> rfl
    · rw [Move.bench]
      split
      · exact h.done rfl rfl
      · exact h.done rfl rfl
  | failed error => exact ⟨_, rfl, rfl, h.done rfl rfl⟩
  | waiting wake => exact ⟨_, rfl, rfl, h⟩

/-- **Every move has a result**: it is the move of the session, and it leaves a sound bench. -/
theorem step?_comes (h : b.Sound limits) (handler : Handler) (now : Nat) (s : Stream) :
    ∃ m, b.step? limits handler now s = some m ∧
      m.view = Session.step limits handler now b.session s ∧ m.bench.Sound limits := by
  have hphase : b.session.phase = b.phase := rfl
  have hreading := readStep?_comes h
  rw [step?, Session.step, hphase]
  rw [phase] at hreading ⊢
  cases hstate : b.state with
  | reading | parsingHeaders | awaitingBody =>
    rw [hstate] at hreading
    exact hreading rfl now s
  | dispatching => exact ⟨_, rfl, rfl, h.done rfl rfl⟩
  | writing delivery =>
    dsimp only
    rcases delivery.run s with ⟨outcome, left, t⟩
    cases outcome with
    | delivered => exact ⟨_, rfl, rfl, h.done rfl rfl⟩
    | failed error => exact ⟨_, rfl, rfl, h.done rfl rfl⟩
    | waiting => exact ⟨_, rfl, rfl, h.done rfl rfl⟩
  | shuttingDown => exact ⟨_, rfl, rfl, h.done rfl rfl⟩
  | closed =>
    refine ⟨_, rfl, ?_, h⟩
    rw [Move.view, session, phase, hstate]

/-! ### Every run -/

/-- Between the moves of a run the bench is sound. -/
theorem Reaches.sound (h : Reaches limits handler s now b t) : b.Sound limits := by
  induction h with
  | start => exact sound_ofLimits limits
  | @move now clock b d t u before hstep ih =>
    obtain ⟨m, hmove, -, hsound⟩ := step?_comes ih handler now t
    cases hmove.symm.trans hstep
    exact hsound

/-- **A run of a session is a run in its buffer**, and the other way round. -/
theorem passes_iff {c : Session} :
    Passes limits handler s now c t ↔ ∃ b, Reaches limits handler s now b t ∧ b.session = c := by
  constructor
  · intro h
    induction h with
    | start => exact ⟨_, .start, rfl⟩
    | @move now clock c d t u before hstep ih =>
      obtain ⟨b, hreaches, rfl⟩ := ih
      obtain ⟨m, hmove, hview, -⟩ := step?_comes hreaches.sound handler now t
      rw [hstep] at hview
      cases m with
      | moved clock e u =>
        cases hview
        exact ⟨e, .move hreaches hmove, rfl⟩
      | stalled e u => cases hview
  · rintro ⟨b, hreaches, rfl⟩
    induction hreaches with
    | start => exact .start
    | @move now clock b d t u before hstep ih =>
      obtain ⟨m, hmove, hview, -⟩ := step?_comes before.sound handler now t
      cases hmove.symm.trans hstep
      exact .move ih hview.symm

/-- **A read that brings bytes of the body leaves less of it missing**, and nothing else is expected
than before. -/
theorem step?_of_awaitingBody (h : b.Sound limits) (hstate : b.state = .awaitingBody)
    {bytes : Bytes} (hread : s.read true now b.buffer.length = (.data bytes, clock, t)) :
    ∃ d, b.step? limits handler now s = some (.moved clock d t) ∧ d.expected = b.expected ∧
      d.expected - d.body.size < b.expected - b.body.size := by
  have hroom : 0 < b.buffer.length := by
    rw [h.room]
    omega
  have hsome : 0 < bytes.length := by
    have hbrings := s.read_brings now hroom
    rw [hread] at hbrings
    cases hbrings with
    | data nonempty => exact List.length_pos_iff.2 nonempty
  have hmissing := h.missing hstate
  have hfilled := h.filledWith (Stream.length_le_of_read hread)
  have happend := append?_eq hfilled.inside hfilled.within (Nat.zero_le _)
  rw [List.drop_zero, held_filledWith] at happend
  refine ⟨(b.filledWith bytes).grown (bytes.take (b.expected - b.body.size)), ?_, rfl, ?_⟩
  · rw [step?, hstate]
    show b.readStep? limits now s = _
    rw [readStep?, hread]
    simp only [onFilled?]
    rw [if_pos (show (b.filledWith bytes).state = .awaitingBody from hstate), happend]
    rfl
  · show b.expected - (b.body ++ bytes.take (b.expected - b.body.size)).size < _
    rw [size_append_list, List.length_take]
    omega

/-- **Nothing that is worked out in a run is out of range.**  Whatever the stream, the room for a
read and the limits, before every move of a run in the buffer, and after a last one that leads
nowhere:

* the buffer has at least one byte, and is filled up to somewhere inside;
* the body is not longer than it may be; while it is awaited there is some of it missing, of a
  declared length that is not larger than it may be;
* all differences and cuts of the next move have a result, and the move is that of the session;
* a read is put inside the buffer, a head ends inside what has been read, and a read for the body
  leaves less of it missing.

And the runs in the buffer are the runs of the session. -/
theorem arithmetic_safe (limits : ServingLimits) (handler : Handler) (s : Stream) :
    (∀ now c t, Passes limits handler s now c t ↔
      ∃ b, Reaches limits handler s now b t ∧ b.session = c) ∧
    ∀ now b t, Reaches limits handler s now b t →
      (∃ m, b.step? limits handler now t = some m ∧
        m.view = Session.step limits handler now b.session t ∧
        ∀ d, d = b ∨ d = m.bench →
          (0 < d.buffer.length ∧ d.buffer.length = max limits.readSize 1 ∧
            d.filled ≤ d.buffer.length) ∧
          d.body.size ≤ limits.maxBody ∧ d.body.size ≤ d.expected ∧
          (d.state = .awaitingBody →
            0 < d.expected ∧ d.expected ≤ limits.maxBody ∧ d.body.size < d.expected)) ∧
      (∀ bytes clock u, t.read true now b.buffer.length = (.data bytes, clock, u) →
        slice? (b.filledWith bytes).buffer 0 (b.filledWith bytes).filled = some bytes ∧
        (∀ consumed, (b.reader.feed b.draft bytes).verdict = .complete consumed →
          consumed ≤ (b.filledWith bytes).filled ∧
            (b.filledWith bytes).filled ≤ (b.filledWith bytes).buffer.length) ∧
        (b.state = .awaitingBody → ∃ d, b.step? limits handler now t = some (.moved clock d u) ∧
          d.expected = b.expected ∧
          d.expected - d.body.size < b.expected - b.body.size)) := by
  refine ⟨fun now c t => passes_iff, fun now b t hreaches => ⟨?_, ?_⟩⟩
  · obtain ⟨m, hmove, hview, hsound⟩ := step?_comes hreaches.sound handler now t
    refine ⟨m, hmove, hview, fun d hd => ?_⟩
    have hd : d.Sound limits := by
      rcases hd with rfl | rfl
      · exact hreaches.sound
      · exact hsound
    have hroom := hd.room
    refine ⟨⟨by omega, hroom, hd.inside⟩, Nat.le_trans hd.within hd.allowed, hd.within, ?_⟩
    intro hstate
    have hmissing := hd.missing hstate
    exact ⟨by omega, hd.allowed, hmissing⟩
  · intro bytes clock u hread
    have hfilled := hreaches.sound.filledWith (Stream.length_le_of_read hread)
    refine ⟨?_, fun consumed hcomplete => ⟨?_, hfilled.inside⟩, fun hstate => ?_⟩
    · rw [slice?_of_le (Nat.zero_le _) hfilled.inside, List.drop_zero]
      exact congrArg some (held_filledWith b bytes)
    · exact Head.Reader.consumed_le_length hcomplete
    · exact step?_of_awaitingBody hreaches.sound hstate hread

/-- A stream that brings the first byte of a body with the head, and the others later. -/
def cutBody : Stream :=
  { reads := [.data (Utf8.encode "PUT / HTTP/1.1\nContent-Length: 3\n\na"), .data [98, 99]] }

/-- Of a body in two reads two bytes are missing after the first, and fewer after the second. -/
theorem arithmetic_safe_cutBody :
    ∃ b t, Reaches { readSize := 40 } .echo cutBody 0 b t ∧ b.state = .awaitingBody ∧
      b.expected - b.body.size = 2 ∧
      ∃ d u, b.step? { readSize := 40 } .echo 0 t = some (.moved 0 d u) ∧
        d.expected - d.body.size < 2 := by
  have hreaches : Reaches { readSize := 40 } .echo cutBody 0
      { state := .awaitingBody, expected := 3, body := #[97], filled := 35,
        buffer := Utf8.encode "PUT / HTTP/1.1\nContent-Length: 3\n\na" ++ [0, 0, 0, 0, 0],
        reader := { phase := .done, seen := 34, limit := Head.defaultLimit },
        draft := ⟨.put, "/", "HTTP/1.1", [⟨"Content-Length", "3"⟩]⟩ }
      { reads := [.data [98, 99]] } := .move .start (by cbv)
  obtain ⟨d, hstep, -, hless⟩ :=
    (((arithmetic_safe _ _ _).2 _ _ _ hreaches).2 [98, 99] 0 {} (by cbv)).2.2 rfl
  exact ⟨_, _, hreaches, rfl, rfl, d, _, hstep, hless⟩

end Bench

end HttpExchange.Session
