import HttpExchange.Broker

/-!
# What an exchange leaves of its link

An exchange reads ahead on its link and decides whether the link may be used again; nothing else
about the link changes.  `Exchange.Leaves` says this of one run.  A link is in use, that is not
reusable, until an exchange has finished; and one that has become reusable has nothing left over
in its buffer, so that the bytes of one reply never reach the next.

* `Exchange.run_leaves` — a run of an exchange on a link in use;
* `Link.send_leaves` — sending a request, on whatever link;
* `Network.probe_alive` — a link that looks alive has not changed.
-/

namespace HttpExchange

namespace Link

/-- Whether a link in no exchange is fit to be used again, if it claims to be. -/
def Settled (link : Link) : Prop := link.reusable = true → link.buffer = []

theorem settled_of_inUse {link : Link} (h : link.reusable = false) : link.Settled := by
  intro hreusable
  rw [h] at hreusable
  cases hreusable

end Link

namespace Exchange

/-- What a run of an exchange leaves of its link. -/
structure Leaves (link : Link) (p : Progress) : Prop where
  same : ∃ buffer reusable, p.link = { link with buffer, reusable }
  settled : p.link.Settled
  /-- A link whose exchange has to wait stays in use. -/
  inUse : ∀ exchange wake, p.outcome = .waiting exchange wake → p.link.reusable = false

theorem Leaves.id_eq {link : Link} {p : Progress} (h : Leaves link p) : p.link.id = link.id := by
  obtain ⟨_, _, hlink⟩ := h.same
  rw [hlink]

theorem isEmpty_of_leavesReusable {head : Reply.Head} {delimited : Bool} {buffer : Bytes}
    (h : leavesReusable head delimited buffer = true) : buffer = [] := by
  rw [leavesReusable, Bool.and_eq_true] at h
  exact List.isEmpty_iff.1 h.2

/-- A finished exchange that has not touched the use of its link. -/
theorem Leaves.finished {link : Link} (h : link.reusable = false)
    (result : Except CallError Reply) (now : Nat) (buffer : Bytes) (s : Stream) :
    Leaves link ⟨.finished result, now, { link with buffer }, s⟩ :=
  ⟨⟨buffer, link.reusable, rfl⟩, Link.settled_of_inUse h, fun _ _ hwaiting => by cases hwaiting⟩

/-- An exchange whose reply has been read to its end. -/
theorem Leaves.completed (link : Link) (result : Except CallError Reply) (now : Nat)
    (head : Reply.Head) (delimited : Bool) (buffer : Bytes) (s : Stream) :
    Leaves link ⟨.finished result, now,
      { link with buffer, reusable := leavesReusable head delimited buffer }, s⟩ :=
  ⟨⟨buffer, _, rfl⟩, isEmpty_of_leavesReusable, fun _ _ hwaiting => by cases hwaiting⟩

/-- An exchange that has to wait. -/
theorem Leaves.paused {link : Link} (h : link.reusable = false) (exchange : Exchange)
    (wake : Option Nat) (now : Nat) (buffer : Bytes) (s : Stream) :
    Leaves link ⟨.waiting exchange wake, now, { link with buffer }, s⟩ :=
  ⟨⟨buffer, link.reusable, rfl⟩, Link.settled_of_inUse h, fun _ _ _ => h⟩

theorem receive_leaves (patient : Bool) (now : Nat) {link : Link} (h : link.reusable = false)
    (r : Reply.Reader) (s : Stream) : Leaves link (receive patient now link r s) := by
  fun_induction receive patient now link r s with
  | case1 => exact .completed _ _ _ _ _ _ _
  | case2 => exact .finished h _ _ _ _
  | case3 _ _ _ _ _ _ _ _ _ ih => exact ih
  | case4 => exact .finished h _ _ _ _
  | case5 => exact .paused h _ _ _ _ _
  | case6 => exact .completed _ _ _ _ _ _ _
  | case7 => exact .finished h _ _ _ _
  | case8 => exact .finished h _ _ _ _

/-- **A run of an exchange changes only the buffer and the use of its link.** -/
theorem run_leaves (patient : Bool) (now : Nat) {link : Link} (h : link.reusable = false)
    (s : Stream) (x : Exchange) : Leaves link (x.run patient now link s) := by
  cases x with
  | sending method rest =>
    rw [run]
    split
    · exact .finished h _ _ link.buffer _
    · exact .paused h _ _ _ link.buffer _
    · split
      · exact .finished h _ _ link.buffer _
      · exact receive_leaves patient now h _ _
  | receiving method stage => exact receive_leaves patient now h _ _

end Exchange

/-- Sending takes the link into use first, even where the request cannot be written. -/
theorem Link.send_leaves (patient : Bool) (now : Nat) (link : Link) (r : Outgoing) (s : Stream) :
    Exchange.Leaves link (link.send patient now r s) := by
  have hleaves : Exchange.Leaves { link with reusable := false } (link.send patient now r s) := by
    rw [send, begin]
    cases r.encode? link.viaProxy with
    | error error => exact .finished rfl _ _ link.buffer _
    | ok bytes => exact Exchange.run_leaves patient now rfl _ _
  exact ⟨hleaves.same, hleaves.settled, hleaves.inUse⟩

/-! ### Looking at an idle link -/

@[simp]
theorem Network.size_withStream (n : Network) (id : Nat) (s : Stream) :
    (n.withStream id s).streams.size = n.streams.size :=
  Array.size_setIfInBounds

theorem Link.probe_alive {now : Nat} {link : Link} {s : Stream}
    (h : (link.probe now s).1 = false) : (link.probe now s).2.1 = link := by
  rw [probe] at h ⊢
  by_cases hempty : (!link.buffer.isEmpty) = true
  · rw [if_pos hempty]
  · rw [if_neg hempty] at h ⊢
    generalize s.read false now s.perRead = reading at h ⊢
    obtain ⟨reading, _, _⟩ := reading
    cases reading with
    | waiting => rfl
    | data => cases h
    | ended => rfl
    | failed => rfl

theorem Stream.read_silent (patient : Bool) (now room : Nat) {s : Stream} {rest : List ReadStep}
    (h : s.reads = .hang :: rest) : s.read patient now room = (.waiting none, now, s) := by
  rw [read.eq_def]
  split <;> simp_all only [List.cons.injEq, reduceCtorEq, false_and]

theorem Stream.read_afterFlush (patient : Bool) (now room : Nat) {s : Stream} {count : Nat}
    {rest : List ReadStep} (h : s.reads = .afterFlush count :: rest) :
    s.read patient now room =
      if count ≤ s.flushes then Stream.read patient now room { s with reads := rest }
      else (.waiting none, now, s) := by
  rw [read.eq_def]
  split <;> simp_all only [List.cons.injEq, reduceCtorEq, false_and, ReadStep.afterFlush.injEq]

/-- A piece that there is room for comes whole. -/
theorem Stream.read_piece (patient : Bool) (now room : Nat) {s : Stream} {bytes : Bytes}
    {rest : List ReadStep} (h : s.reads = .data bytes :: rest) (hne : bytes ≠ [])
    (hroom : bytes.length ≤ min room s.perRead) :
    s.read patient now room = (.data bytes, now, { s with reads := rest }) := by
  have hdrop : bytes.drop (min room s.perRead) = [] := List.drop_eq_nil_of_le hroom
  rw [read.eq_def]
  split
  case h_2 heq =>
    cases h.symm.trans heq
    rw [if_neg (by simpa using hne), hdrop]
  all_goals
    next heq =>
    cases h.symm.trans heq

/-- A link looks alive whose far end keeps silent. -/
theorem Link.probe_silent (now : Nat) {link : Link} {s : Stream} {rest : List ReadStep}
    (hbuffer : link.buffer = []) (h : s.reads = .hang :: rest) :
    link.probe now s = (false, link, s) := by
  rw [probe, hbuffer, Stream.read_silent false now s.perRead h]
  rfl

/-- A link that looks alive is as it was. -/
theorem Network.probe_alive {n : Network} {link : Link} (h : (n.probe link).1 = false) :
    (n.probe link).2.1 = link :=
  Link.probe_alive h

@[simp]
theorem Network.size_probe (n : Network) (link : Link) :
    (n.probe link).2.2.streams.size = n.streams.size :=
  n.size_withStream _ _

end HttpExchange
