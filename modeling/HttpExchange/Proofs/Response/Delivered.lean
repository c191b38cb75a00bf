import HttpExchange.Proofs.Stream.Arrivals

/-!
# What a delivery comes to

A script of writes lets bytes through up to its obstacle, the first step that takes none of them: a
write that fails, one that takes nothing, or one that waits for ever.  A delivery ends there unless
it is done before.

* `Stream.Takes` / `write_takes` — one write takes some of the bytes, or has come to the obstacle;
* `Delivery.Meets` / `run_meets` — the four ways in which a delivery can end, and what each leaves of
  the stream;
* `Meets.exists_sent` — in all of them the stream carries a beginning of the bytes.
-/

namespace HttpExchange

namespace WriteStep

/-- Whether a write takes anything at this step. -/
def takes : WriteStep → Bool
  | accept (_ + 1) => true
  | _ => false

/-- The failure that a delivery reports at this step. -/
def fault? : WriteStep → Option IoError
  | fail error => some error
  | accept 0 => some Delivery.closedWhileWriting
  | _ => none

end WriteStep

namespace Stream

/-- The first step of the script at which a write takes nothing. -/
def obstacle? (s : Stream) : Option WriteStep := s.writes.find? (!·.takes)

/-- The stream after it has taken bytes, with that much of its script of writes left. -/
def took (s : Stream) (sent : Bytes) (left : List WriteStep) : Stream :=
  { s with writes := left, written := s.written ++ sent }

theorem took_took (s : Stream) (sent more : Bytes) (left rest : List WriteStep) :
    (s.took sent left).took more rest = s.took (sent ++ more) rest := by
  simp only [took, List.append_assoc]

theorem took_nil (s : Stream) : s.took [] s.writes = s := by
  simp only [took, List.append_nil]

/-- What one write may come to, and what it leaves. -/
inductive Takes (s : Stream) (b : UInt8) (rest : Bytes) : Writing → Stream → Prop
  | part {n : Nat} {left : List WriteStep}
      (obstacle : (s.took (b :: rest.take n) left).obstacle? = s.obstacle?) :
      Takes s b rest (.accepted (n + 1)) (s.took (b :: rest.take n) left)
  | nothing {left : List WriteStep} (obstacle : s.obstacle? = some (.accept 0)) :
      Takes s b rest (.accepted 0) (s.took [] left)
  | failed {error : IoError} {left : List WriteStep} (obstacle : s.obstacle? = some (.fail error)) :
      Takes s b rest (.failed error) (s.took [] left)
  | waiting (obstacle : s.obstacle? = some .hang) : Takes s b rest .waiting s

/-- **A write takes some of the bytes, or has come to the obstacle.** -/
theorem write_takes (s : Stream) (b : UInt8) (rest : Bytes) :
    s.Takes b rest (s.write (b :: rest)).1 (s.write (b :: rest)).2 := by
  have hnothing (left : List WriteStep) :
      s.took [] left = { s with writes := left, written := s.written } := by
    simp only [took, List.append_nil]
  rw [write]
  split
  · next hwrites =>
    have hall : b :: rest = b :: rest.take rest.length := by rw [List.take_length]
    have hpart : s.Takes b rest (.accepted (rest.length + 1))
        (s.took (b :: rest.take rest.length) []) :=
      .part (by simp only [obstacle?, took, hwrites])
    rw [← hall] at hpart
    simpa only [took, hwrites, List.length_cons] using hpart
  · next count more hwrites =>
    cases count with
    | zero =>
      have hzero : s.Takes b rest (.accepted 0) (s.took [] more) :=
        .nothing (by simp [obstacle?, hwrites, WriteStep.takes])
      simpa only [Nat.zero_min, List.take_zero, took] using hzero
    | succ count =>
      have hcount : min (count + 1) (b :: rest).length = min count rest.length + 1 :=
        Nat.succ_min_succ _ _
      have hpart : s.Takes b rest (.accepted (min count rest.length + 1))
          (s.took (b :: rest.take (min count rest.length)) more) :=
        .part (by simp [obstacle?, took, hwrites, WriteStep.takes])
      simpa only [hcount, List.take_succ_cons, took] using hpart
  · next error more hwrites =>
    have hfail : s.Takes b rest (.failed error) (s.took [] more) :=
      .failed (by simp [obstacle?, hwrites, WriteStep.takes])
    simpa only [hnothing] using hfail
  · next more hwrites =>
    exact .waiting (by simp [obstacle?, hwrites, WriteStep.takes])

end Stream

namespace Delivery

/-- How a delivery of some bytes ends, and what it leaves of the stream. -/
inductive Meets (s : Stream) (wire : Bytes) : Outcome → Stream → Prop
  /-- All is taken and flushed. -/
  | flushed {left : List WriteStep} (flush : s.flushError = none) :
      Meets s wire .delivered (s.took wire left).flush.2
  /-- All is taken, and the flush fails. -/
  | unflushed {left : List WriteStep} {error : IoError} (flush : s.flushError = some error) :
      Meets s wire (.failed error) (s.took wire left).flush.2
  /-- A part is taken, and then a write fails or takes nothing. -/
  | refused {sent : Bytes} {left : List WriteStep} {step : WriteStep} {error : IoError}
      (part : sent <+: wire) (short : sent ≠ wire) (obstacle : s.obstacle? = some step)
      (fault : step.fault? = some error) : Meets s wire (.failed error) (s.took sent left)
  /-- A part is taken, and then a write waits for ever. -/
  | waits {sent : Bytes} {left : List WriteStep} (part : sent <+: wire) (short : sent ≠ wire)
      (obstacle : s.obstacle? = some .hang) : Meets s wire .waiting (s.took sent left)

/-- The stream carries a beginning of the bytes, and all of them if nothing is in the way. -/
theorem Meets.exists_sent {s t : Stream} {wire : Bytes} {outcome : Outcome}
    (h : Meets s wire outcome t) : ∃ sent, sent <+: wire ∧ t.written = s.written ++ sent ∧
      (s.obstacle? = none → sent = wire) := by
  cases h with
  | flushed | unflushed => exact ⟨wire, List.prefix_rfl, rfl, fun _ => rfl⟩
  | refused part _ stopped | waits part _ stopped =>
    refine ⟨_, part, rfl, fun hnone => ?_⟩
    rw [stopped] at hnone
    cases hnone

/-- A delivery that goes on where a write has left the stream ends as it does from the start. -/
theorem Meets.of_took {s t : Stream} {sent wire : Bytes} {left : List WriteStep} {outcome : Outcome}
    (obstacle : (s.took sent left).obstacle? = s.obstacle?)
    (h : Meets (s.took sent left) wire outcome t) : Meets s (sent ++ wire) outcome t := by
  cases h with
  | flushed flush =>
    rw [Stream.took_took]
    exact .flushed flush
  | unflushed flush =>
    rw [Stream.took_took]
    exact .unflushed flush
  | refused part short stopped fault =>
    rw [Stream.took_took]
    exact .refused ((List.prefix_append_right_inj sent).2 part)
      (fun heq => short (List.append_cancel_left heq)) (obstacle ▸ stopped) fault
  | waits part short stopped =>
    rw [Stream.took_took]
    exact .waits ((List.prefix_append_right_inj sent).2 part)
      (fun heq => short (List.append_cancel_left heq)) (obstacle ▸ stopped)

/-- **Every delivery ends in one of four ways.** -/
theorem run_meets (d : Delivery) (s : Stream) :
    Meets s d.pending.flatten (d.run s).1 (d.run s).2.2 := by
  have hshort (b : UInt8) (bytes : Bytes) (rest : List Bytes) :
      [] ≠ ((b :: bytes) :: rest).flatten := List.cons_ne_nil _ _ |>.symm
  fun_induction run d s with
  | case1 d s h error t hflush =>
    rw [h]
    obtain ⟨herror, rfl⟩ := Prod.mk.inj hflush
    have hends : Meets s [] (.failed error) (s.took [] s.writes).flush.2 := .unflushed herror
    rwa [s.took_nil] at hends
  | case2 d s h t hflush =>
    rw [h]
    obtain ⟨herror, rfl⟩ := Prod.mk.inj hflush
    have hends : Meets s [] .delivered (s.took [] s.writes).flush.2 := .flushed herror
    rwa [s.took_nil] at hends
  | case3 d s rest h ih =>
    rw [h]
    exact ih
  | case4 d s b bytes rest h t hwrite =>
    have htakes := s.write_takes b bytes
    rw [hwrite] at htakes
    rw [h]
    cases htakes with
    | waiting obstacle =>
      have hends : Meets t ((b :: bytes) :: rest).flatten .waiting (t.took [] t.writes) :=
        .waits List.nil_prefix (hshort b bytes rest) obstacle
      rwa [t.took_nil] at hends
  | case5 d s b bytes rest h error t hwrite =>
    have htakes := s.write_takes b bytes
    rw [hwrite] at htakes
    rw [h]
    cases htakes with
    | failed obstacle => exact .refused List.nil_prefix (hshort b bytes rest) obstacle rfl
  | case6 d s b bytes rest h t hwrite =>
    have htakes := s.write_takes b bytes
    rw [hwrite] at htakes
    rw [h]
    cases htakes with
    | nothing obstacle => exact .refused List.nil_prefix (hshort b bytes rest) obstacle rfl
  | case7 d s b bytes rest h n t hwrite ih =>
    have htakes := s.write_takes b bytes
    rw [hwrite] at htakes
    rw [h]
    cases htakes with
    | part obstacle =>
      have hwire : ((b :: bytes) :: rest).flatten =
          (b :: bytes.take n) ++ (bytes.drop n :: rest).flatten := by
        show b :: (bytes ++ rest.flatten) =
          b :: (bytes.take n ++ (bytes.drop n ++ rest.flatten))
        rw [← List.append_assoc, List.take_append_drop]
      rw [hwire]
      exact ih.of_took obstacle

end Delivery

end HttpExchange
