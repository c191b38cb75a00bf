import HttpExchange.IoError
import HttpExchange.Text.Utf8

/-!
# Streams whose far end follows a script

A `Stream` is a two-way byte stream.  What the far end sends, and how it takes what is written to
it, is laid down step by step, so that every run is repeatable.  The stream also keeps what it has
taken and how often it was flushed and shut down.

Waiting is part of the script.  A `patient` read waits timers out and moves the clock; an
impatient one reports when it would go on.  `Stream.weight` falls with every read that brings
data, which bounds every reading loop.
-/

namespace HttpExchange

/-- What the far end does next for the reader. -/
inductive ReadStep
  /-- Sends bytes; none at all is an end of file, once. -/
  | data (bytes : Bytes)
  | fail (error : IoError)
  /-- Nothing, for ever. -/
  | hang
  /-- Nothing until the stream has been flushed so often. -/
  | afterFlush (count : Nat)
  /-- Nothing until so many milliseconds after the first read that got here. -/
  | sleep (duration : Nat)
  deriving DecidableEq, Repr

/-- What one write meets. -/
inductive WriteStep
  /-- So many bytes are taken at most. -/
  | accept (count : Nat)
  | fail (error : IoError)
  /-- Nothing, for ever. -/
  | hang
  deriving DecidableEq, Repr

/-- The most bytes one read brings where nothing else is said. -/
def usualPerRead : Nat := 4096

theorem usualPerRead_pos : 0 < usualPerRead := Nat.succ_pos _

/-- A stream: the rest of its script and what has happened on it. -/
structure Stream where
  reads : List ReadStep := []
  /-- The most bytes one read brings, whatever room the reader has. -/
  perRead : Nat := usualPerRead
  perRead_pos : 0 < perRead := by exact usualPerRead_pos
  writes : List WriteStep := []
  flushError : Option IoError := none
  shutdownError : Option IoError := none
  /-- When the sleep in front is over, once a read has got there. -/
  wakeAt : Option Nat := none
  written : Bytes := []
  flushes : Nat := 0
  shutdowns : Nat := 0
  deriving DecidableEq, Repr

/-- What a read brings. -/
inductive Reading
  /-- At least one byte. -/
  | data (bytes : Bytes)
  | ended
  | failed (error : IoError)
  /-- Nothing yet; perhaps it is known until when. -/
  | waiting (wake : Option Nat)
  deriving DecidableEq, Repr

/-- What a write brings. -/
inductive Writing
  | accepted (count : Nat)
  | failed (error : IoError)
  | waiting
  deriving DecidableEq, Repr

namespace ReadStep

/-- How much a step can still bring: its bytes and itself. -/
def weight : ReadStep → Nat
  | data bytes => bytes.length + 1
  | _ => 1

/-- The data bytes of a step. -/
def size : ReadStep → Nat
  | data bytes => bytes.length
  | _ => 0

end ReadStep

namespace Stream

/-- How much the script can still bring. -/
def weight (s : Stream) : Nat := s.reads.foldr (fun step n => step.weight + n) 0

/-- The data bytes never read. -/
def unread (s : Stream) : Nat := s.reads.foldr (fun step n => step.size + n) 0

/-- One read with room for `room` bytes at the time `now`.  The clock afterwards is `now`, unless
the read is patient and had to wait. -/
def read (patient : Bool) (now room : Nat) (s : Stream) : Reading × Nat × Stream :=
  match _h : s.reads with
  | [] => (.ended, now, s)
  | .data bytes :: rest =>
    let count := min room s.perRead
    if bytes.isEmpty then (.ended, now, { s with reads := rest })
    else match bytes.drop count with
      | [] => (.data bytes, now, { s with reads := rest })
      | b :: left =>
        (.data (bytes.take count), now, { s with reads := .data (b :: left) :: rest })
  | .fail error :: rest => (.failed error, now, { s with reads := rest })
  | .hang :: _ => (.waiting none, now, s)
  | .afterFlush count :: rest =>
    if count ≤ s.flushes then read patient now room { s with reads := rest }
    else (.waiting none, now, s)
  | .sleep duration :: rest =>
    let wake := s.wakeAt.getD (now + duration)
    if wake ≤ now then read patient now room { s with reads := rest, wakeAt := none }
    else if patient then read patient wake room { s with reads := rest, wakeAt := none }
    else (.waiting (some wake), now, { s with wakeAt := some wake })
termination_by s.reads.length
decreasing_by all_goals simp [*]

/-- One write of some bytes. -/
def write (bytes : Bytes) (s : Stream) : Writing × Stream :=
  match s.writes with
  | [] => (.accepted bytes.length, { s with written := s.written ++ bytes })
  | .accept count :: rest =>
    let count := min count bytes.length
    (.accepted count, { s with writes := rest, written := s.written ++ bytes.take count })
  | .fail error :: rest => (.failed error, { s with writes := rest })
  | .hang :: _ => (.waiting, s)

/-- Flushes, which is counted even where it fails. -/
def flush (s : Stream) : Option IoError × Stream :=
  (s.flushError, { s with flushes := s.flushes + 1 })

/-- Shuts the stream down, which is counted even where it fails. -/
def shutdown (s : Stream) : Option IoError × Stream :=
  (s.shutdownError, { s with shutdowns := s.shutdowns + 1 })

theorem weight_lt_of_read_data {patient : Bool} {now room clock : Nat} {s t : Stream}
    {bytes : Bytes} (room_pos : 0 < room)
    (h : s.read patient now room = (.data bytes, clock, t)) : t.weight < s.weight := by
  fun_induction read patient now room s with
  | case1 => simp at h
  | case2 => simp at h
  | case3 =>
    simp only [Prod.mk.injEq] at h
    obtain ⟨-, -, rfl⟩ := h
    simp [weight, *, ReadStep.weight]
  | case4 now s rest bytes' heq count hne b left hleft =>
    simp only [Prod.mk.injEq] at h
    obtain ⟨-, -, rfl⟩ := h
    have : 0 < count := Nat.lt_min.2 ⟨room_pos, s.perRead_pos⟩
    have := congrArg List.length hleft
    simp only [List.length_drop, List.length_cons] at this
    simp only [weight, heq, List.foldr_cons, ReadStep.weight, List.length_cons]
    omega
  | case5 => simp at h
  | case6 => simp at h
  | case7 now s rest count heq hle ih =>
    have := ih h
    simp only [weight, heq, List.foldr_cons] at this ⊢
    omega
  | case8 => simp at h
  | case9 now s rest duration heq wake hle ih =>
    have := ih h
    simp only [weight, heq, List.foldr_cons] at this ⊢
    omega
  | case10 now s rest duration heq wake hlt hp ih =>
    have := ih h
    simp only [weight, heq, List.foldr_cons] at this ⊢
    omega
  | case11 => simp at h

end Stream

end HttpExchange
