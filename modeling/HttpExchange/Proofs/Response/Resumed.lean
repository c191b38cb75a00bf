import HttpExchange.Proofs.Response.Delivered

/-!
# A delivery goes on where it has stopped

A run of a delivery may end anywhere: a write fails, takes nothing or is given up while it waits, or
the flush fails.  The delivery can be run again, on the same stream or on another, and what a stream
does in between is up to its far end.  So a row of runs is given by the streams that they find.

* `run_sends` — what one run takes off a delivery is what its stream has taken;
* `after`, `taken` — what a row of runs leaves, and what the streams have taken in it;
* `sends_taken` — that is what the row takes off;
* `run_continues` — no byte is lost and none is sent again, and how the next run ends.
-/

namespace HttpExchange

/-- A write takes no more than it is given. -/
theorem Stream.taken_write_le (bytes : Bytes) (s : Stream) :
    (s.write bytes).1.taken ≤ bytes.length := by
  rw [write]
  split
  · exact Nat.le_refl _
  · exact Nat.min_le_right _ _
  · exact Nat.zero_le _
  · exact Nat.zero_le _

namespace Delivery

variable {d e : Delivery} {s t : Stream} {sent more wire : Bytes} {outcome : Outcome}

/-! ### One run -/

/-- Some bytes have gone off a delivery. -/
structure Sends (d : Delivery) (sent : Bytes) (e : Delivery) : Prop where
  pending : d.pending.flatten = sent ++ e.pending.flatten
  written : e.written = d.written + sent.length

theorem Sends.refl (d : Delivery) : d.Sends [] d := ⟨rfl, rfl⟩

theorem Sends.trans {f : Delivery} (h : d.Sends sent e) (g : e.Sends more f) :
    d.Sends (sent ++ more) f where
  pending := by rw [h.pending, g.pending, List.append_assoc]
  written := by rw [g.written, h.written, List.length_append, Nat.add_assoc]

/-- What one write has taken is off the first buffer. -/
theorem sends_write {b : UInt8} {bytes : Bytes} {rest : List Bytes} {written n : Nat}
    (hn : n ≤ bytes.length) :
    Sends ⟨(b :: bytes) :: rest, written⟩ (b :: bytes.take n)
      ⟨bytes.drop n :: rest, written + (n + 1)⟩ where
  pending := by
    show b :: (bytes ++ rest.flatten) = b :: (bytes.take n ++ (bytes.drop n ++ rest.flatten))
    rw [← List.append_assoc, List.take_append_drop]
  written := by
    rw [List.length_cons, List.length_take, Nat.min_eq_left hn]

/-- **What a run takes off a delivery is what the stream has taken.** -/
theorem run_sends (d : Delivery) (s : Stream) :
    ∃ sent, (d.run s).2.2.written = s.written ++ sent ∧ d.Sends sent (d.run s).2.1 := by
  fun_induction run d s with
  | case1 d s h error t hflush | case2 d s h t hflush =>
    obtain ⟨-, rfl⟩ := Prod.mk.inj hflush
    exact ⟨[], (List.append_nil _).symm, .refl d⟩
  | case3 d s rest h ih =>
    obtain ⟨sent, hwritten, hsends⟩ := ih
    exact ⟨sent, hwritten, h ▸ hsends.pending, hsends.written⟩
  | case4 d s b bytes rest h t hwrite | case5 d s b bytes rest h error t hwrite
  | case6 d s b bytes rest h t hwrite =>
    have htook := s.written_write (b :: bytes)
    rw [hwrite] at htook
    exact ⟨[], htook, .refl d⟩
  | case7 d s b bytes rest h n t hwrite ih =>
    obtain ⟨sent, hwritten, hsends⟩ := ih
    have htook := s.written_write (b :: bytes)
    have hle := s.taken_write_le (b :: bytes)
    rw [hwrite] at htook hle
    refine ⟨(b :: bytes.take n) ++ sent, ?_, ?_⟩
    · rw [hwritten, htook, List.append_assoc]
      rfl
    · obtain ⟨pending, written⟩ := d
      cases h
      exact (sends_write (Nat.le_of_succ_le_succ hle)).trans hsends

/-! ### A row of runs -/

/-- What is left after a run on each of some streams in turn. -/
def after (d : Delivery) (streams : List Stream) : Delivery :=
  streams.foldl (fun d s => (d.run s).2.1) d

/-- What these streams have taken in their runs, one after the other. -/
def taken (d : Delivery) : List Stream → Bytes
  | [] => []
  | s :: rest => (d.run s).2.2.written.drop s.written.length ++ taken (d.run s).2.1 rest

/-- **What a row of runs takes off a delivery is what the streams have taken.** -/
theorem sends_taken (d : Delivery) (streams : List Stream) :
    d.Sends (d.taken streams) (d.after streams) := by
  induction streams generalizing d with
  | nil => exact .refl d
  | cons s rest ih =>
    obtain ⟨sent, hwritten, hsends⟩ := d.run_sends s
    have htaken : d.taken (s :: rest) = sent ++ (d.run s).2.1.taken rest := by
      rw [taken, hwritten, List.drop_left]
    rw [htaken]
    exact hsends.trans (ih (d.run s).2.1)

/-- Of a response that is under way, what has gone off it is its front. -/
theorem Sends.split {r : Response} (h : (ofResponse r).Sends sent d) :
    sent = r.wire.take d.written ∧ d.pending.flatten = r.wire.drop d.written ∧
      d.written + d.remaining = r.wire.length := by
  have hwire : r.wire = sent ++ d.pending.flatten := h.pending
  have hwritten : d.written = sent.length := h.written.trans (Nat.zero_add _)
  rw [remaining, hwire, hwritten, List.take_left, List.drop_left, List.length_append]
  exact ⟨rfl, rfl, rfl⟩

/-- How a run ends, told by what it leaves: it has delivered all if nothing is left and the flush
succeeds, and it has flushed once if nothing is left, and else not at all. -/
theorem Meets.ends (h : Meets s (sent ++ e.pending.flatten) outcome t)
    (hwritten : t.written = s.written ++ sent) :
    (outcome = .delivered ↔ e.remaining = 0 ∧ s.flushError = none) ∧
      t.flushes = s.flushes + (if e.remaining = 0 then 1 else 0) := by
  have hdone : e.remaining = 0 ↔ sent = sent ++ e.pending.flatten := by
    rw [remaining, List.length_eq_zero_iff, List.self_eq_append_right]
  cases h with
  | flushed flush =>
    have hzero := hdone.2 (List.append_cancel_left hwritten).symm
    rw [if_pos hzero]
    exact ⟨⟨fun _ => ⟨hzero, flush⟩, fun _ => rfl⟩, rfl⟩
  | unflushed flush =>
    have hzero := hdone.2 (List.append_cancel_left hwritten).symm
    rw [if_pos hzero, flush]
    exact ⟨⟨nofun, fun h => nomatch h.2⟩, rfl⟩
  | refused _ short =>
    have hsent := List.append_cancel_left hwritten
    have hleft : e.remaining ≠ 0 := fun hzero => short (hsent.trans (hdone.1 hzero))
    rw [if_neg hleft]
    exact ⟨⟨nofun, fun h => absurd h.1 hleft⟩, rfl⟩
  | waits _ short =>
    have hsent := List.append_cancel_left hwritten
    have hleft : e.remaining ≠ 0 := fun hzero => short (hsent.trans (hdone.1 hzero))
    rw [if_neg hleft]
    exact ⟨⟨nofun, fun h => absurd h.1 hleft⟩, rfl⟩

/-- **No byte is lost and none is sent again.**  After any row of runs the streams have taken the
front of the response, as many bytes as are counted, and what is counted and what remains are the
whole.  The next run, on whatever stream, goes on at the first byte that was not taken.  It delivers
all just when nothing remains and its flush succeeds, and it flushes only when nothing remains; else
it ends at the first write of the script that takes nothing, and reports that. -/
theorem run_continues (r : Response) (streams : List Stream) (s : Stream) :
    let d := (ofResponse r).after streams
    let p := d.run s
    ((ofResponse r).taken streams = r.wire.take d.written ∧
      d.written + d.remaining = r.wire.length) ∧
    (∃ sent, p.2.2.written = s.written ++ sent ∧ sent <+: r.wire.drop d.written ∧
      p.2.1.written = d.written + sent.length) ∧
    (p.1 = .delivered ↔ p.2.1.remaining = 0 ∧ s.flushError = none) ∧
    p.2.2.flushes = s.flushes + (if p.2.1.remaining = 0 then 1 else 0) ∧
    Meets s (r.wire.drop d.written) p.1 p.2.2 := by
  intro d p
  obtain ⟨htaken, hpending, hlength⟩ := (sends_taken (ofResponse r) streams).split
  obtain ⟨sent, hwritten, hsends⟩ := d.run_sends s
  have hmeets : Meets s d.pending.flatten p.1 p.2.2 := d.run_meets s
  rw [hsends.pending] at hmeets
  obtain ⟨hends, hflushes⟩ := hmeets.ends hwritten
  refine ⟨⟨htaken, hlength⟩, ⟨sent, hwritten, ?_, hsends.written⟩, hends, hflushes, ?_⟩
  · rw [← hpending, hsends.pending]
    exact List.prefix_append sent _
  · rw [← hpending]
    exact d.run_meets s

end Delivery

end HttpExchange
