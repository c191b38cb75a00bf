import HttpExchange.Proofs.Link.Held

/-!
# Waiting for the end of a head or of a line

A reader that waits for the end of a head, or of a line, reads until that end is at hand.  It looks
for it after every read, and for the end of a head it does not look from the front again, but from
three bytes before the end of what was at hand before the read.

* `Bytes.ShortestEnding` — the shortest front that ends in a pattern, which is what a search finds;
* `Reader.Resumes`, `Reader.Resumes.received` — a search that is taken up again finds what a search
  from the front would find, and a read preserves that;
* `Exchange.await` / `receive_await` — reading as long as a reader waits, a part of receiving;
* `Exchange.Awaits.read`, `Exchange.awaits_await` — what one read, and so all of them, preserve;
* `Exchange.await_finds` — so what is found is the first end there is in all the bytes, and what is
  left is what comes after it.
-/

namespace HttpExchange

namespace Bytes

/-! ### The first place of a pattern -/

/-- A search finds a place where the pattern is, and passes over none. -/
theorem find?_spec {pattern : Bytes} {place found : Nat} {bytes : Bytes}
    (h : find? pattern place bytes = some found) :
    pattern <+: bytes.drop (found - place) ∧
      ∀ k, place + k < found → ¬pattern <+: bytes.drop k := by
  induction bytes generalizing place with
  | nil =>
    rw [find?] at h
    split at h
    · next hempty =>
      cases h
      rw [List.isEmpty_iff.1 hempty]
      exact ⟨List.nil_prefix, fun k hk => by omega⟩
    · cases h
  | cons b rest ih =>
    rw [find?] at h
    split at h
    · next hprefix =>
      cases h
      rw [Nat.sub_self]
      exact ⟨List.isPrefixOf_iff_prefix.1 hprefix, fun k hk => by omega⟩
    · next hprefix =>
      obtain ⟨hfound, hbefore⟩ := ih h
      have hle := (find?_add_length_le h).1
      refine ⟨?_, fun k hk => ?_⟩
      · rw [show found - place = found - (place + 1) + 1 by omega, List.drop_succ_cons]
        exact hfound
      · cases k with
        | zero => exact fun hfront => hprefix (List.isPrefixOf_iff_prefix.2 hfront)
        | succ k => exact hbefore k (by omega)

/-- A search in vain means that the pattern is nowhere. -/
theorem not_isInfix_of_find? {pattern : Bytes} {place : Nat} {bytes : Bytes}
    (h : find? pattern place bytes = none) : ¬pattern <:+: bytes := by
  induction bytes generalizing place with
  | nil =>
    rw [find?] at h
    split at h
    · cases h
    · next hempty =>
      intro hinfix
      exact hempty (List.isEmpty_iff.2 (List.infix_nil.1 hinfix))
  | cons b rest ih =>
    rw [find?] at h
    split at h
    · cases h
    · next hprefix =>
      rw [List.infix_cons_iff]
      rintro (hfront | hinfix)
      · exact hprefix (List.isPrefixOf_iff_prefix.2 hfront)
      · exact ih h hinfix

/-- The shortest front of some bytes that ends in a pattern. -/
structure ShortestEnding (pattern whole front : Bytes) : Prop where
  within : front <+: whole
  ends : pattern <:+ front
  least : ∀ other, other <+: whole → pattern <:+ other → front.length ≤ other.length

/-- Up to the end of the pattern that is found there is what is before it, and the pattern. -/
theorem take_of_find? {pattern bytes : Bytes} {place : Nat}
    (h : find? pattern 0 bytes = some place) :
    bytes.take (place + pattern.length) = bytes.take place ++ pattern := by
  obtain ⟨rest, hrest⟩ := (find?_spec h).1
  rw [Nat.sub_zero] at hrest
  rw [List.take_add, ← hrest, List.take_left]

/-- **What a search finds ends the shortest front** that ends in the pattern. -/
theorem shortestEnding_of_find? {pattern bytes : Bytes} {place : Nat}
    (h : find? pattern 0 bytes = some place) :
    ShortestEnding pattern bytes (bytes.take (place + pattern.length)) where
  within := List.take_prefix _ _
  ends := by
    rw [take_of_find? h]
    exact List.suffix_append _ _
  least := by
    rintro other ⟨rest, hwhole⟩ ⟨before, rfl⟩
    by_contra hshorter
    rw [List.length_append, List.length_take] at hshorter
    refine (find?_spec h).2 before.length (by omega) ⟨rest, ?_⟩
    rw [← hwhole, List.append_assoc, List.drop_left]

/-- It does so whatever comes behind. -/
theorem shortestEnding_append {pattern bytes : Bytes} {place : Nat}
    (h : find? pattern 0 bytes = some place) (more : Bytes) :
    ShortestEnding pattern (bytes ++ more) (bytes.take (place + pattern.length)) := by
  have hle := (find?_add_length_le h).2
  rw [Nat.zero_add] at hle
  rw [← List.take_append_of_le_length hle]
  exact shortestEnding_of_find? (find?_append_of_some h more)

end Bytes

/-- A stream that brings nothing to one who waits has nothing more. -/
theorem Stream.delivered_eq_nil {s : Stream} {now : Nat}
    (h : ∀ bytes clock t, s.read true now s.perRead ≠ (.data bytes, clock, t)) :
    s.delivered = [] := by
  have hbrings := s.read_brings now s.perRead_pos
  rcases hread : s.read true now s.perRead with ⟨reading, clock, t⟩
  rw [hread] at hbrings
  cases hbrings with
  | data => exact absurd hread (h _ clock t)
  | ended alike delivers | failed alike delivers | waiting alike delivers => exact delivers

namespace Reply

open Bytes (ShortestEnding)

/-- The bytes at hand after a move. -/
def Move.left : Move → Bytes
  | again r => r.buffer
  | stop (.wants r) => r.buffer
  | stop (.complete _ _ _ buffer) => buffer
  | stop (.failed _ buffer) => buffer

/-- A stage at its beginning: of a head nothing has been searched. -/
def Stage.anew : Stage → Stage
  | head _ => head 0
  | stage => stage

theorem Stage.exists_of_anew {stage : Stage} (h : stage.anew = .head 0) :
    ∃ searched, stage = .head searched := by
  cases stage with
  | head searched => exact ⟨searched, rfl⟩
  | _ => cases h

theorem Stage.eq_of_anew {stage other : Stage} (hawaits : other.awaitsLine = true)
    (h : stage.anew = other.anew) : stage = other := by
  cases other with
  | chunkSize | chunkEnd | trailers =>
    cases stage with
    | head => cases h
    | _ => exact h
  | _ => cases hawaits

namespace Reader

variable {r u : Reader} {head line rest bytes : Bytes}

/-! ### Heads and lines -/

/-- What follows a head that has been found. -/
def onHead (r : Reader) (head rest : Bytes) : Move :=
  match Head.ofBytes head with
  | .error fault => fail fault rest
  | .ok head => r.afterHead head rest

/-- What follows a line that has been found, where one is waited for. -/
def onLine (r : Reader) (line rest : Bytes) : Move :=
  match r.stage with
  | .chunkSize head body =>
    match chunkSize? line with
    | none => fail .chunkSize rest
    | some 0 => .again (r.goto (.trailers head body) rest)
    | some size =>
      if r.maxBody < grown body.size size then fail (.bodyTooLong r.maxBody) rest
      else .again (r.goto (.chunkData head body size) rest)
  | .chunkEnd head body =>
    if line.isEmpty then .again (r.goto (.chunkSize head body) rest) else fail .chunkEnd rest
  | .trailers head body =>
    if line.isEmpty then .stop (.complete head body.toList true rest)
    else .again (r.goto (.trailers head body) rest)
  | _ => .stop (.wants (r.goto r.stage rest))

/-- What follows a head that has been found is another stage, though not the data of a chunk, or a
verdict that asks for no more; and behind the head is what follows it. -/
theorem onHead_cases (r : Reader) (head rest : Bytes) :
    (∃ stage, r.onHead head rest = .again (r.goto stage rest) ∧ stage.rank = 0) ∨
      ∃ verdict, r.onHead head rest = .stop verdict ∧ (∀ u, verdict ≠ .wants u) ∧
        (Move.stop verdict).left = rest := by
  rw [onHead]
  split
  · exact .inr ⟨_, rfl, fun _ h => (by cases h), rfl⟩
  · rw [afterHead]
    repeat' split
    all_goals first | exact .inl ⟨_, rfl, rfl⟩ | exact .inr ⟨_, rfl, fun _ h => (by cases h), rfl⟩

theorem left_onHead (r : Reader) (head rest : Bytes) : (r.onHead head rest).left = rest := by
  obtain ⟨stage, hmove, -⟩ | ⟨verdict, hmove, -, hleft⟩ := r.onHead_cases head rest
  · rw [hmove]
    rfl
  · rw [hmove]
    exact hleft

/-- Behind a line is what follows it. -/
theorem left_onLine (r : Reader) (line rest : Bytes) : (r.onLine line rest).left = rest := by
  rw [onLine]
  repeat' split
  all_goals rfl

/-- A move in front of a head looks for its end. -/
theorem step_of_head {searched : Nat} (h : r.stage = .head searched) :
    r.step = match Bytes.find? headEnd searched (r.buffer.drop searched) with
      | some place => r.onHead (r.buffer.take (place + 4)) (r.buffer.drop (place + 4))
      | none =>
        if maxHead < r.buffer.length then fail .headTooLarge r.buffer
        else .stop (.wants (r.goto (.head (r.buffer.length - 3)) r.buffer)) := by
  rw [step, h]
  rfl

/-- A move in front of a line looks for its end. -/
theorem step_of_awaitsLine (h : r.stage.awaitsLine = true) :
    r.step = match cutLine r.buffer with
      | some (line, rest) => r.onLine line rest
      | none => .stop (.wants r) := by
  rw [step]
  cases hstage : r.stage with
  | chunkSize | chunkEnd | trailers =>
    simp only [onLine, hstage]
    cases cutLine r.buffer <;> rfl
  | head | counted | untilEnd | chunkData =>
    rw [hstage] at h
    cases h

/-- **A line is all that is before its end**, and behind that end is the rest. -/
theorem shortestEnding_of_cutLine (h : cutLine bytes = some (line, rest)) :
    ShortestEnding lineEnd bytes (line ++ lineEnd) ∧ line ++ lineEnd ++ rest = bytes := by
  rw [cutLine, Option.map_eq_some_iff] at h
  obtain ⟨place, hfind, hcut⟩ := h
  cases hcut
  rw [← Bytes.take_of_find? hfind]
  exact ⟨Bytes.shortestEnding_of_find? hfind, List.take_append_drop _ _⟩

theorem not_isInfix_of_cutLine (h : cutLine bytes = none) : ¬lineEnd <:+: bytes :=
  Bytes.not_isInfix_of_find? (Option.map_eq_none_iff.1 h)

/-! ### Searching on -/

/-- What is searched for the end of a head from where the search was left is what a search from the
front would find. -/
def Resumes (r : Reader) : Prop :=
  ∀ searched, r.stage = .head searched →
    Bytes.find? headEnd searched (r.buffer.drop searched) = Bytes.find? headEnd 0 r.buffer

theorem resumes_of_front (h : r.stage = .head 0) : r.Resumes := by
  intro searched hstage
  cases h.symm.trans hstage
  rfl

theorem not_wants_of_onHead (h : r.onHead head rest = .stop (.wants u)) : False := by
  obtain ⟨stage, hmove, -⟩ | ⟨verdict, hmove, hwants, -⟩ := r.onHead_cases head rest
  · cases hmove.symm.trans h
  · cases hmove.symm.trans h
    exact hwants u rfl

/-- In front of a head, who waits has not found its end; elsewhere who waits stays as it is. -/
theorem wants_spec (h : r.step = .stop (.wants u)) :
    (∃ searched, r.stage = .head searched ∧
      Bytes.find? headEnd searched (r.buffer.drop searched) = none ∧ r.buffer.length ≤ maxHead ∧
      u = r.goto (.head (r.buffer.length - 3)) r.buffer) ∨
    ((∀ searched, r.stage ≠ .head searched) ∧ u = r) := by
  cases hstage : r.stage with
  | head searched =>
    rw [step_of_head hstage] at h
    split at h
    · exact (not_wants_of_onHead h).elim
    · next hfind =>
      split at h
      · cases h
      · next hlength =>
        cases h
        exact .inl ⟨searched, rfl, hfind, Nat.le_of_not_lt hlength, rfl⟩
  | counted | untilEnd | chunkSize | chunkData | chunkEnd | trailers =>
    refine .inr ⟨fun _ hhead => (by cases hhead), ?_⟩
    simp only [step, hstage] at h
    repeat' split at h
    all_goals first | (cases h; rfl) | cases h

/-- **Searching on comes to the same as searching from the front.** -/
theorem Resumes.step (hr : r.Resumes) : r.step = (r.goto r.stage.anew r.buffer).step := by
  cases hstage : r.stage with
  | head searched =>
    have hfront : (r.goto (.head 0) r.buffer).stage = .head 0 := rfl
    rw [step_of_head hstage, hr searched hstage, Stage.anew, step_of_head hfront]
    rfl
  | counted | untilEnd | chunkSize | chunkData | chunkEnd | trailers =>
    have hanew : r.stage.anew = r.stage := by
      rw [hstage]
      rfl
    rw [← hstage, hanew]
    rfl

/-- Who waits keeps what is at hand, and waits for the same. -/
theorem wants_keeps (h : r.step = .stop (.wants u)) :
    u.buffer = r.buffer ∧ u.stage.anew = r.stage.anew := by
  obtain ⟨searched, hstage, -, -, rfl⟩ | ⟨-, rfl⟩ := wants_spec h
  · exact ⟨rfl, by rw [hstage]; rfl⟩
  · exact ⟨rfl, rfl⟩

/-- **A search may be taken up again three bytes before the end.**  Of the four bytes of an end that
has not been found, one at least is still to come. -/
theorem Resumes.received (hr : r.Resumes) (h : r.step = .stop (.wants u)) (bytes : Bytes) :
    (u.received bytes).Resumes := by
  obtain ⟨searched, hstage, hfind, -, rfl⟩ | ⟨hstage, rfl⟩ := wants_spec h
  · rw [hr searched hstage] at hfind
    intro again hagain
    cases hagain
    show Bytes.find? headEnd (r.buffer.length - 3)
      ((r.buffer ++ bytes).drop (r.buffer.length - 3)) = Bytes.find? headEnd 0 (r.buffer ++ bytes)
    by_cases hshort : r.buffer.length < 3
    · rw [show r.buffer.length - 3 = 0 by omega, List.drop_zero]
    · have hskip : r.buffer.length - 3 + headEnd.length ≤ r.buffer.length + 1 := by
        rw [show headEnd.length = 4 from rfl]
        omega
      rw [Bytes.find?_append_of_none hfind hskip, Nat.zero_add]
  · exact fun searched hsearched => absurd hsearched (hstage searched)

end Reader

end Reply

namespace Exchange

open Reply (headEnd lineEnd maxHead)
open Bytes (ShortestEnding)

/-! ### Reading as long as a reader waits -/

/-- Where an exchange stands while it reads a reply: the time, the reader and the stream. -/
structure Standing where
  now : Nat
  reader : Reply.Reader
  stream : Stream
  deriving DecidableEq, Repr

/-- All that is at hand, and all that is still to come. -/
def Standing.whole (c : Standing) : Bytes := c.reader.buffer ++ c.stream.delivered

/-- Reads as long as the reader waits at its stage and reading brings bytes. -/
def await (patient : Bool) (c : Standing) : Standing :=
  match c.reader.step with
  | .stop (.wants u) => match _h : c.stream.read patient c.now c.stream.perRead with
    | (.data bytes, now, s) => await patient ⟨now, u.received bytes, s⟩
    | _ => c
  | _ => c
termination_by c.stream.weight
decreasing_by exact Stream.weight_lt_of_read_data (Stream.perRead_pos _) _h

variable {patient : Bool} {c d : Standing}

/-- **Reading on at one stage is a part of receiving.** -/
theorem receive_await (patient : Bool) (link : Link) (c : Standing) :
    receive patient c.now link c.reader c.stream =
      receive patient (await patient c).now link (await patient c).reader
        (await patient c).stream := by
  fun_induction await patient c with
  | case1 c u hstep bytes now s hread ih =>
    rw [receive_of_wants (Reply.Reader.advance_of_stop hstep), hread]
    exact ih
  | case2 | case3 => rfl

/-- What is the same before and after some reads of a reader that waits. -/
structure Awaits (c d : Standing) : Prop where
  whole : d.whole = c.whole
  stage : d.reader.stage.anew = c.reader.stage.anew
  resumes : c.reader.Resumes → d.reader.Resumes

theorem Awaits.refl (c : Standing) : Awaits c c := ⟨rfl, rfl, id⟩

theorem Awaits.trans {e : Standing} (hcd : Awaits c d) (hde : Awaits d e) : Awaits c e :=
  ⟨hde.whole.trans hcd.whole, hde.stage.trans hcd.stage, hde.resumes ∘ hcd.resumes⟩

/-- **One read preserves it.** -/
theorem Awaits.read {u : Reply.Reader} {bytes : Bytes} {clock : Nat} {t : Stream}
    (hstep : c.reader.step = .stop (.wants u))
    (hread : c.stream.read patient c.now c.stream.perRead = (.data bytes, clock, t)) :
    Awaits c ⟨clock, u.received bytes, t⟩ := by
  obtain ⟨hbuffer, hstage⟩ := Reply.Reader.wants_keeps hstep
  refine ⟨?_, hstage, fun hresumes => hresumes.received hstep bytes⟩
  show u.buffer ++ bytes ++ t.delivered = c.reader.buffer ++ c.stream.delivered
  rw [hbuffer, List.append_assoc, ← Stream.delivered_of_read hread]

/-- **So does reading on.** -/
theorem awaits_await (patient : Bool) (c : Standing) : Awaits c (await patient c) := by
  fun_induction await patient c with
  | case1 c u hstep bytes now s hread ih => exact (Awaits.read hstep hread).trans ih
  | case2 | case3 => exact .refl _

/-- Reading on ends where the reader does not wait any more, or nothing more is brought. -/
theorem read_await {u : Reply.Reader} (hstep : (await patient c).reader.step = .stop (.wants u))
    (bytes : Bytes) (clock : Nat) (t : Stream) :
    (await patient c).stream.read patient (await patient c).now (await patient c).stream.perRead ≠
      (.data bytes, clock, t) := by
  fun_induction await patient c with
  | case1 c u hstep bytes now s hread ih => exact ih hstep
  | case2 c u hstep hnone => exact hnone bytes clock t
  | case3 c hnot => exact absurd hstep (hnot u)

/-! ### What is found -/

/-- A front of all the bytes ends in the pattern, and no shorter one does.  It is at hand, with
`rest` behind it; and what comes after it is that, and what is still to come. -/
structure Found (pattern : Bytes) (c d : Standing) (front rest : Bytes) : Prop where
  shortest : ShortestEnding pattern c.whole front
  atHand : d.reader.buffer = front ++ rest
  behind : c.whole = front ++ (rest ++ d.stream.delivered)

/-- The pattern is nowhere at hand, and reading brings nothing; so that it is nowhere at all, if
reading means waiting. -/
structure Missing (pattern : Bytes) (patient : Bool) (c d : Standing) : Prop where
  nowhere : ¬pattern <:+: d.reader.buffer
  nothing : ∀ bytes clock t,
    d.stream.read patient d.now d.stream.perRead ≠ (.data bytes, clock, t)
  never : patient = true → ¬pattern <:+: c.whole

theorem missing_await {pattern : Bytes} {u : Reply.Reader}
    (hnowhere : ¬pattern <:+: (await patient c).reader.buffer)
    (hstep : (await patient c).reader.step = .stop (.wants u)) :
    Missing pattern patient c (await patient c) where
  nowhere := hnowhere
  nothing := read_await hstep
  never := by
    rintro rfl
    rw [← (awaits_await true c).whole, Standing.whole, Stream.delivered_eq_nil (read_await hstep),
      List.append_nil]
    exact hnowhere

/-- **The end of a head is found where it is**, however it is cut. -/
theorem await_head {searched : Nat} (hstage : c.reader.stage = .head searched)
    (hresumes : c.reader.Resumes) :
    let d := await patient c
    (∃ head rest, d.reader.step = d.reader.onHead head rest ∧ Found headEnd c d head rest) ∨
      (¬headEnd <:+: d.reader.buffer ∧ maxHead < d.reader.buffer.length ∧
        d.reader.step = Reply.Reader.fail .headTooLarge d.reader.buffer) ∨
      ((∃ u, d.reader.step = .stop (.wants u) ∧ u.Resumes) ∧ d.reader.buffer.length ≤ maxHead ∧
        Missing headEnd patient c d) := by
  intro d
  have hawaits : Awaits c d := awaits_await patient c
  have hd := hawaits.resumes hresumes
  obtain ⟨place, hplace⟩ : ∃ place, d.reader.stage = .head place :=
    Reply.Stage.exists_of_anew (hawaits.stage.trans (by rw [hstage]; rfl))
  have hstep := Reply.Reader.step_of_head hplace
  rw [hd place hplace] at hstep
  cases hfind : Bytes.find? headEnd 0 d.reader.buffer with
  | some place =>
    rw [hfind] at hstep
    refine .inl ⟨_, _, hstep, ?_, (List.take_append_drop ..).symm, ?_⟩
    · rw [← hawaits.whole]
      exact Bytes.shortestEnding_append hfind _
    · rw [← hawaits.whole, ← List.append_assoc, List.take_append_drop]
      rfl
  | none =>
    have hnowhere := Bytes.not_isInfix_of_find? hfind
    rw [hfind] at hstep
    by_cases hlength : maxHead < d.reader.buffer.length
    · exact .inr (.inl ⟨hnowhere, hlength, hstep.trans (if_pos hlength)⟩)
    · have hwants := hstep.trans (if_neg hlength)
      have hagain := hd.received hwants []
      rw [Reply.Reader.received_nil] at hagain
      exact .inr (.inr ⟨⟨_, hwants, hagain⟩, Nat.le_of_not_lt hlength,
        missing_await hnowhere hwants⟩)

/-- **So is the end of a line.** -/
theorem await_line (hawaits : c.reader.stage.awaitsLine = true) :
    let d := await patient c
    d.reader.stage = c.reader.stage ∧
      ((∃ line rest, d.reader.step = d.reader.onLine line rest ∧
          Found lineEnd c d (line ++ lineEnd) rest) ∨
        (d.reader.step = .stop (.wants d.reader) ∧ Missing lineEnd patient c d)) := by
  intro d
  have hsame : Awaits c d := awaits_await patient c
  have hstage := Reply.Stage.eq_of_anew hawaits hsame.stage
  refine ⟨hstage, ?_⟩
  have hstep := Reply.Reader.step_of_awaitsLine (hstage ▸ hawaits)
  cases hcut : Reply.Reader.cutLine d.reader.buffer with
  | some cut =>
    obtain ⟨line, rest⟩ := cut
    rw [hcut] at hstep
    obtain ⟨-, hhand⟩ := Reply.Reader.shortestEnding_of_cutLine hcut
    obtain ⟨hshortest, hbehind⟩ := Reply.Reader.shortestEnding_of_cutLine
      (Reply.Reader.cutLine_append hcut d.stream.delivered)
    refine .inl ⟨line, rest, hstep, ?_, hhand.symm, ?_⟩
    · rw [← hsame.whole]
      exact hshortest
    · rw [← hsame.whole]
      exact hbehind.symm
  | none =>
    rw [hcut] at hstep
    exact .inr ⟨hstep, missing_await (Reply.Reader.not_isInfix_of_cutLine hcut) hstep⟩

/-- **Looking on after every read finds what looking at all the bytes would find.**  A reader that
waits for the end of a head, or of a line, reads until that is at hand, is missing too long, or no
more comes.  That is a part of receiving, and no byte is lost.

* Of a head, the end is looked for from three bytes before the end of what was at hand, and yet
  what is found at any time is what a search from the front finds: the shortest front of all the
  bytes, at hand and still to come, that ends in an empty line.  It goes to the reader with exactly
  what comes after it.  If none is found, none is at hand: there are more bytes than a head may
  have, or reading brings no more, and then none is there at all.
* Of a line, what is found is what is before its first end, and it goes to the reader with exactly
  what comes after that. -/
theorem await_finds (patient : Bool) (link : Link) (c : Standing) :
    let d := await patient c
    receive patient c.now link c.reader c.stream = receive patient d.now link d.reader d.stream ∧
    d.whole = c.whole ∧
    (∀ head rest, (d.reader.onHead head rest).left = rest) ∧
    (∀ line rest, (d.reader.onLine line rest).left = rest) ∧
    (c.reader.stage = .head 0 → c.reader.Resumes) ∧
    (∀ searched, c.reader.stage = .head searched → c.reader.Resumes →
      d.reader.step = (d.reader.goto (.head 0) d.reader.buffer).step ∧
      ((∃ head rest, d.reader.step = d.reader.onHead head rest ∧ Found headEnd c d head rest) ∨
        (¬headEnd <:+: d.reader.buffer ∧ maxHead < d.reader.buffer.length ∧
          d.reader.step = Reply.Reader.fail .headTooLarge d.reader.buffer) ∨
        ((∃ u, d.reader.step = .stop (.wants u) ∧ u.Resumes) ∧ d.reader.buffer.length ≤ maxHead ∧
          Missing headEnd patient c d))) ∧
    (c.reader.stage.awaitsLine = true →
      d.reader.stage = c.reader.stage ∧
      ((∃ line rest, d.reader.step = d.reader.onLine line rest ∧
          Found lineEnd c d (line ++ lineEnd) rest) ∨
        (d.reader.step = .stop (.wants d.reader) ∧ Missing lineEnd patient c d))) := by
  intro d
  have hawaits : Awaits c d := awaits_await patient c
  refine ⟨receive_await patient link c, hawaits.whole, d.reader.left_onHead, d.reader.left_onLine,
    Reply.Reader.resumes_of_front, fun searched hstage hresumes => ⟨?_, ?_⟩, await_line⟩
  · have hfront : d.reader.stage.anew = .head 0 := hawaits.stage.trans (by rw [hstage]; rfl)
    rw [(hawaits.resumes hresumes).step, hfront]
  · exact await_head hstage hresumes

/-- A byte is at hand and the first byte of an end; the others come one by one, the last with a byte
behind it. -/
def cutEnd : Standing :=
  { now := 0, reader := .start .get 0 [0x41, 0x0D],
    stream := { reads := [.data [0x0A], .data [0x0D], .data [0x0A, 0x42]] } }

/-- The end is found, and what is behind it is left. -/
theorem await_finds_cutEnd :
    let d := await true cutEnd
    ∃ rest, d.reader.step = d.reader.onHead [0x41, 0x0D, 0x0A, 0x0D, 0x0A] rest ∧
      rest ++ d.stream.delivered = [0x42] := by
  intro d
  have hwhole : cutEnd.whole = [0x41, 0x0D, 0x0A, 0x0D, 0x0A] ++ [0x42] := by decide
  obtain ⟨-, hsame, -, -, hfront, hfinds, -⟩ := await_finds true
    { id := 0, destination := ⟨"http", "a", 80⟩, address := ⟨.ipv4 0, 80⟩ } cutEnd
  obtain ⟨-, ⟨head, rest, hstep, hfound⟩ | ⟨-, hlength, -⟩ | ⟨-, -, hmissing⟩⟩ :=
    hfinds 0 rfl (hfront rfl)
  · have hle : head.length ≤ 5 :=
      hfound.shortest.least [0x41, 0x0D, 0x0A, 0x0D, 0x0A] (by decide) (by decide)
    have hge : 4 ≤ head.length := hfound.shortest.ends.length_le
    have hhead : head = cutEnd.whole.take head.length :=
      List.prefix_iff_eq_take.1 hfound.shortest.within
    obtain hfour | hfive : head.length = 4 ∨ head.length = 5 := by omega
    · rw [hfour] at hhead
      exact absurd (hhead ▸ hfound.shortest.ends) (by decide)
    · rw [hfive] at hhead
      obtain rfl : head = [0x41, 0x0D, 0x0A, 0x0D, 0x0A] := hhead
      refine ⟨rest, hstep, ?_⟩
      exact (List.append_cancel_left (hwhole.symm.trans hfound.behind)).symm
  · have hsum : (d.reader.buffer ++ d.stream.delivered).length = cutEnd.whole.length :=
      congrArg List.length hsame
    rw [List.length_append, hwhole] at hsum
    have hmax : maxHead = 65536 := rfl
    simp only [List.length_append, List.length_cons, List.length_nil] at hsum
    have hlength : maxHead < d.reader.buffer.length := hlength
    omega
  · exact absurd (by decide) (hmissing.never rfl)

end Exchange

end HttpExchange
