import HttpExchange.Proofs.Link.Moves

/-!
# Replies whose end is marked

A reply that has no body ends with its head.  Of any other, the head says where it ends, by naming
the chunked coding or a length, or else it goes on until the stream ends.  The use of a link is
given back only with a reply of the first kinds.

* `Reader.marked_step`, `Reader.marked_advance` — within a body that is not read until the stream
  ends, the head has marked the end, and so it has of a reply that is complete;
* `Exchange.receive_marks`, `Exchange.run_marks`, `Exchange.move_marks` — so it is where an exchange
  waits, and of a reply that gives the use of its link back.
-/

namespace HttpExchange

namespace Reply

/-- The end of a reply to a method is marked: there is no body, or the head says where it ends. -/
def EndMarked (method : Method) (head : Head) : Prop :=
  Bodiless method head ∨ head.NamesChunked ∨
    ∃ value, head.headers.first? "Content-Length" = some value

/-- The head that a body is behind, where it is not read until the stream ends. -/
def Stage.marked? : Stage → Option Head
  | head _ => none
  | counted h _ => some h
  | untilEnd _ => none
  | chunkSize h _ => some h
  | chunkData h _ _ => some h
  | chunkEnd h _ => some h
  | trailers h _ => some h

/-- Such a head has marked the end. -/
def Stage.Marked (method : Method) (stage : Stage) : Prop :=
  ∀ head ∈ stage.marked?, EndMarked method head

theorem Stage.marked_of_none {method : Method} {stage : Stage} (h : stage.marked? = none) :
    stage.Marked method := by
  intro head hhead
  rw [h] at hhead
  cases hhead

/-- What a reader has come to, or still asks for, has a marked end. -/
def Verdict.Marked (method : Method) : Verdict → Prop
  | wants r => r.method = method ∧ r.stage.Marked method
  | complete head _ delimited _ => delimited = true → EndMarked method head
  | failed _ _ => True

/-- So has what it goes on with. -/
def Move.Marked (method : Method) : Move → Prop
  | again r => r.method = method ∧ r.stage.Marked method
  | stop verdict => verdict.Marked method

namespace Reader

variable {head : Head} {rest : Bytes}

theorem marked_afterHead (r : Reader) (head : Head) (rest : Bytes) :
    (r.afterHead head rest).Marked r.method := by
  rw [afterHead]
  split
  · exact ⟨rfl, Stage.marked_of_none rfl⟩
  · split
    · next hbodiless => exact fun _ => .inl (bodiless_iff.2 hbodiless)
    · split
      · next hchunked =>
        refine ⟨rfl, fun h hh => ?_⟩
        cases hh
        exact .inr (.inl ((isChunked_iff head).1 hchunked))
      · split
        · exact ⟨rfl, Stage.marked_of_none rfl⟩
        · next value hvalue =>
          split
          · trivial
          · split
            · trivial
            · refine ⟨rfl, fun h hh => ?_⟩
              cases hh
              exact .inr (.inr ⟨value, hvalue⟩)

/-- **One move.** -/
theorem marked_step {r : Reader} (h : r.stage.Marked r.method) : r.step.Marked r.method := by
  have hwants : (Move.stop (.wants r)).Marked r.method := ⟨rfl, h⟩
  cases hstage : r.stage with
  | head searched =>
    simp only [step, hstage]
    split
    · split
      · trivial
      · exact r.marked_afterHead _ _
    · split
      · trivial
      · exact ⟨rfl, Stage.marked_of_none rfl⟩
  | untilEnd head =>
    simp only [step, hstage]
    split
    · trivial
    · exact hwants
  | counted head length =>
    have hmarked : EndMarked r.method head := h head (by rw [hstage]; rfl)
    simp only [step, hstage]
    split
    · exact hwants
    · exact fun _ => hmarked
  | chunkSize head body | chunkData head body size | chunkEnd head body | trailers head body =>
    have hmarked : EndMarked r.method head := h head (by rw [hstage]; rfl)
    -- Wherever a chunked body is gone on with, it is behind the same head.
    have hagain {stage : Stage} (hsame : stage.marked? = some head) (rest : Bytes) :
        (Move.again (r.goto stage rest)).Marked r.method := by
      refine ⟨rfl, fun other hother => ?_⟩
      cases hsame.symm.trans hother
      exact hmarked
    simp only [step, hstage]
    repeat' split
    all_goals first
      | exact hwants
      | exact hagain rfl _
      | exact fun _ => hmarked
      | trivial

/-- **Whatever a reader comes to has a marked end**, or is read until the stream ends. -/
theorem marked_advance {r : Reader} (h : r.stage.Marked r.method) :
    r.advance.Marked r.method := by
  fun_induction advance r with
  | case1 r next hstep ih =>
    have hmarked := marked_step h
    rw [hstep] at hmarked
    obtain ⟨hmethod, hnext⟩ := hmarked
    rw [← hmethod] at hnext ⊢
    exact ih hnext
  | case2 r verdict hstep =>
    have hmarked := marked_step h
    rwa [hstep] at hmarked

end Reader

theorem Head.eq_of_withBody {head other : Head} {body rest : Bytes}
    (h : head.withBody body = other.withBody rest) : head = other := by
  cases head
  cases other
  cases h
  rfl

end Reply

namespace Exchange

/-- The method of the request that an exchange is about. -/
def method : Exchange → Method
  | sending method _ => method
  | receiving method _ => method

/-- In a body that is not read until the stream ends, the head has marked the end. -/
def Marked : Exchange → Prop
  | sending _ _ => True
  | receiving method stage => stage.Marked method

theorem marked_sending (method : Method) (rest : Bytes) : (sending method rest).Marked := trivial

theorem marked_receiving {method : Method} {stage : Reply.Stage} (h : stage.Marked method) :
    (receiving method stage).Marked := h

/-- So it is where an exchange waits, and a reply that gives the use of its link back has a marked
end. -/
structure Marks (method : Method) (p : Progress) : Prop where
  waits : ∀ x wake, p.outcome = .waiting x wake → x.Marked
  frees : p.link.reusable = true → ∀ (head : Reply.Head) (body : Bytes),
    p.outcome = .finished (.ok (head.withBody body)) → Reply.EndMarked method head

variable {method : Method} {now : Nat} {link : Link} {s : Stream}

namespace Marks

theorem finished (h : link.reusable = false) (result : Except CallError Reply) (buffer : Bytes) :
    Marks method ⟨.finished result, now, { link with buffer }, s⟩ := by
  refine ⟨fun _ _ hwaits => (by cases hwaits), fun hreusable => ?_⟩
  rw [show link.reusable = true from hreusable] at h
  cases h

theorem paused (h : link.reusable = false) {x : Exchange} (hx : x.Marked) (wake : Option Nat)
    (buffer : Bytes) : Marks method ⟨.waiting x wake, now, { link with buffer }, s⟩ := by
  refine ⟨fun y _ hy => ?_, fun hreusable => ?_⟩
  · cases hy
    exact hx
  · rw [show link.reusable = true from hreusable] at h
    cases h

theorem completed {head : Reply.Head} {delimited : Bool}
    (h : delimited = true → Reply.EndMarked method head) (body buffer : Bytes) :
    Marks method ⟨.finished (.ok (head.withBody body)), now,
      { link with buffer, reusable := leavesReusable head delimited buffer }, s⟩ := by
  refine ⟨fun _ _ hwaits => (by cases hwaits), fun hreusable other rest hother => ?_⟩
  have hheads : head.withBody body = other.withBody rest := by
    injection hother with hresult
    exact Except.ok.inj hresult
  rw [← Reply.Head.eq_of_withBody hheads]
  exact h (leavesReusable_iff.1 hreusable).1

end Marks

/-- **What a read comes to.** -/
theorem receive_marks (patient : Bool) (now : Nat) {link : Link} (h : link.reusable = false)
    {r : Reply.Reader} (hr : r.stage.Marked r.method) (s : Stream) :
    Marks r.method (receive patient now link r s) := by
  have hadvance := Reply.Reader.marked_advance hr
  fun_induction receive patient now link r s with
  | case1 _ _ _ _ _ _ _ hcomplete =>
    rw [hcomplete] at hadvance
    exact .completed hadvance _ _
  | case2 => exact .finished h _ _
  | case3 now r s u hwants bytes clock t hread ih =>
    rw [hwants] at hadvance
    obtain ⟨hmethod, hnext⟩ := hadvance
    rw [← hmethod] at hnext ⊢
    exact ih hnext (Reply.Reader.marked_advance hnext)
  | case4 => exact .finished h _ _
  | case5 now r s u hwants =>
    rw [hwants] at hadvance
    obtain ⟨hmethod, hnext⟩ := hadvance
    rw [← hmethod] at hnext
    exact .paused h (marked_receiving hnext) _ _
  | case6 now r s u hwants clock t hread head body delimited buffer hended =>
    refine .completed (fun hdelimited => ?_) _ _
    -- What the end of the stream completes was read until then.
    rw [Reply.Reader.ended] at hended
    split at hended
    · cases hended
      cases hdelimited
    · cases hended
  | case7 => exact .finished h _ _
  | case8 => exact .finished h _ _

/-- **A run of an exchange.** -/
theorem run_marks (patient : Bool) (now : Nat) {link : Link} (h : link.reusable = false)
    {x : Exchange} (hx : x.Marked) (s : Stream) : Marks x.method (x.run patient now link s) := by
  cases x with
  | sending method rest =>
    rw [run]
    split
    · exact .finished h _ link.buffer
    · exact .paused h (marked_sending _ _) _ link.buffer
    · split
      · exact .finished h _ link.buffer
      · exact receive_marks patient now h
          (r := .start method link.maxBody link.buffer) (Reply.Stage.marked_of_none rfl) _
  | receiving method stage => exact receive_marks patient now h (r := reader link method stage) hx _

/-- **A move of an exchange.** -/
theorem move_marks (now : Nat) {link : Link} (h : link.reusable = false) {x : Exchange}
    (hx : x.Marked) (s : Stream) : Marks x.method (x.move now link s).progress := by
  have hmoved := moved now link s x
  generalize x.move now link s = m at hmoved ⊢
  have hwants {method : Method} {stage : Reply.Stage} {r : Reply.Reader}
      (hstage : stage.Marked method) (hwants : (reader link method stage).advance = .wants r) :
      (receiving r.method r.stage).Marked := by
    obtain ⟨hmethod, hnext⟩ := hwants ▸ Reply.Reader.marked_advance hstage
    rwa [← hmethod] at hnext
  cases hmoved with
  | wrote => exact .paused h (marked_sending _ _) _ link.buffer
  | flushed =>
    exact .paused h (marked_receiving (Reply.Stage.marked_of_none rfl)) _ link.buffer
  | got hreader => exact .paused h (hwants hx hreader) _ _
  | waitsToWrite => exact .paused h (marked_sending _ _) _ link.buffer
  | waitsToRead hreader => exact .paused h (hwants hx hreader) _ _
  | @completed method stage _ _ _ _ hcomplete =>
    have hadvance := Reply.Reader.marked_advance (r := reader link method stage) hx
    rw [hcomplete] at hadvance
    exact .completed hadvance _ _
  | ended => exact .completed (fun hdelimited => by cases hdelimited) _ _
  | failed => exact .finished h _ _

end Exchange

namespace Link

theorem begun_marks (now : Nat) (link : Link) (request : Outgoing) (s : Stream) :
    Exchange.Marks request.method (link.begun now request s).progress := by
  have hlink : ({ link with reusable := false } : Link).reusable = false := rfl
  rw [begun, begin]
  cases request.encode? link.viaProxy with
  | error error => exact .finished hlink _ link.buffer
  | ok bytes => exact .paused hlink (Exchange.marked_sending _ _) _ link.buffer

theorem send_marks (patient : Bool) (now : Nat) (link : Link) (request : Outgoing) (s : Stream) :
    Exchange.Marks request.method (link.send patient now request s) := by
  have hlink : ({ link with reusable := false } : Link).reusable = false := rfl
  rw [send, begin]
  cases request.encode? link.viaProxy with
  | error error => exact .finished hlink _ link.buffer
  | ok bytes =>
    exact Exchange.run_marks patient now hlink (Exchange.marked_sending request.method bytes) _

end Link

end HttpExchange
