import HttpExchange.Response.Wire
import HttpExchange.Stream

/-!
# Delivering a response

A `Delivery` is what is left of a response that is being written.  A far end may take as little of
each write as it likes: `Delivery.run` writes the rest of the first unfinished buffer until all
are done, then flushes.  After a failure the next run goes on at the first byte not yet taken.
-/

namespace HttpExchange

/-- The buffers still to be written, and how many bytes have been taken so far. -/
structure Delivery where
  pending : List Bytes
  written : Nat := 0
  deriving DecidableEq, Repr

namespace Delivery

/-- How a run ended. -/
inductive Outcome
  | delivered
  | failed (error : IoError)
  /-- A write was left waiting. -/
  | waiting
  deriving DecidableEq, Repr

/-- The delivery of a response, nothing of it written. -/
def ofResponse (r : Response) : Delivery := { pending := r.buffers }

/-- The bytes still to be written. -/
def remaining (d : Delivery) : Nat := d.pending.flatten.length

/-- The failure of a write that takes nothing. -/
def closedWhileWriting : IoError := ⟨.writeZero, "connection closed while writing"⟩

/-- Writes until all is taken, a write fails or a write waits; then flushes. -/
def run (d : Delivery) (s : Stream) : Outcome × Delivery × Stream :=
  match _h : d.pending with
  | [] => match s.flush with
    | (some error, s) => (.failed error, d, s)
    | (none, s) => (.delivered, d, s)
  | [] :: rest => run { d with pending := rest } s
  | (b :: bytes) :: rest => match s.write (b :: bytes) with
    | (.waiting, s) => (.waiting, d, s)
    | (.failed error, s) => (.failed error, d, s)
    | (.accepted 0, s) => (.failed closedWhileWriting, d, s)
    | (.accepted (n + 1), s) =>
      run { pending := bytes.drop n :: rest, written := d.written + (n + 1) } s
termination_by d.remaining + d.pending.length
decreasing_by
  · simp [remaining, *]
  · simp only [remaining, *, List.flatten_cons, List.length_append, List.length_drop,
      List.length_cons]
    omega

end Delivery

end HttpExchange
