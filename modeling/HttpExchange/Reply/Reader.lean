import HttpExchange.Method
import HttpExchange.Reply.Head

/-!
# Reading a reply from bytes that come in pieces

A `Reader` holds the bytes that have come and are not yet used, and the stage it is at.
`Reader.advance` goes on as far as those bytes allow: to the end of the reply, to a fault, or to
the point where more bytes are needed.  `Reader.received` and `Reader.ended` tell it what the
stream brought.

Every move uses up bytes, or goes down in `Stage.rank`, so that advancing ends on any input.
-/

namespace HttpExchange

namespace Bytes

/-- The place of the first occurrence of a pattern, counted from `place`. -/
def find? (pattern : Bytes) (place : Nat) : Bytes → Option Nat
  | [] => if pattern.isEmpty then some place else none
  | b :: rest =>
    if pattern.isPrefixOf (b :: rest) then some place else find? pattern (place + 1) rest

theorem find?_add_length_le {pattern : Bytes} {place found : Nat} {bytes : Bytes}
    (h : find? pattern place bytes = some found) :
    place ≤ found ∧ found + pattern.length ≤ place + bytes.length := by
  induction bytes generalizing place with
  | nil =>
    simp only [find?] at h
    split at h
    · next he => simp_all
    · cases h
  | cons b rest ih =>
    simp only [find?] at h
    split at h
    · next hp =>
      cases h
      have := (List.isPrefixOf_iff_prefix.1 hp).length_le
      exact ⟨Nat.le_refl _, by omega⟩
    · have := ih h
      simp only [List.length_cons]
      omega

end Bytes

namespace Reply

/-- The longest head that is still waited for. -/
def maxHead : Nat := 64 * 1024

/-- The longest body where no other limit is set. -/
def defaultMaxBody : Nat := 64 * 1024 * 1024

/-- Where in the reply a reader is. -/
inductive Stage
  /-- Before the end of a head; so many bytes have been searched for it. -/
  | head (searched : Nat)
  /-- In a body of known length. -/
  | counted (head : Head) (length : Nat)
  /-- In a body that ends with the stream. -/
  | untilEnd (head : Head)
  | chunkSize (head : Head) (body : Array UInt8)
  | chunkData (head : Head) (body : Array UInt8) (size : Nat)
  | chunkEnd (head : Head) (body : Array UInt8)
  | trailers (head : Head) (body : Array UInt8)
  deriving DecidableEq, Repr

/-- Only the data of a chunk may be empty. -/
def Stage.rank : Stage → Nat
  | chunkData _ _ _ => 1
  | _ => 0

/-- A reader: the method that was asked with, the longest body, the stage and the bytes at hand. -/
structure Reader where
  method : Method
  maxBody : Nat
  stage : Stage
  buffer : Bytes
  deriving DecidableEq, Repr

/-- What a reader has come to. -/
inductive Verdict
  /-- More bytes are needed. -/
  | wants (reader : Reader)
  /-- The reply is complete.  `delimited` says that its end was marked other than by the end of
  the stream; `buffer` are the bytes that came after it. -/
  | complete (head : Head) (body : Bytes) (delimited : Bool) (buffer : Bytes)
  | failed (error : CallError) (buffer : Bytes)
  deriving DecidableEq, Repr

/-- One move: to another stage, or to a verdict. -/
inductive Move
  | again (reader : Reader)
  | stop (verdict : Verdict)
  deriving DecidableEq, Repr

/-- CR LF. -/
def lineEnd : Bytes := [0x0D, 0x0A]

/-- CR LF CR LF. -/
def headEnd : Bytes := [0x0D, 0x0A, 0x0D, 0x0A]

namespace Reader

/-- A reader before a reply; bytes may be left from before. -/
def start (method : Method) (maxBody : Nat) (buffer : Bytes) : Reader :=
  { method, maxBody, stage := .head 0, buffer }

/-- The reader at another stage, with other bytes at hand. -/
def goto (r : Reader) (stage : Stage) (buffer : Bytes) : Reader := { r with stage, buffer }

/-- Stops with a fault. -/
def fail (fault : Fault) (buffer : Bytes) : Move := .stop (.failed (.badReply fault) buffer)

/-- The first line at hand and what follows its end. -/
def cutLine (buffer : Bytes) : Option (Bytes × Bytes) :=
  (Bytes.find? lineEnd 0 buffer).map fun place => (buffer.take place, buffer.drop (place + 2))

/-- What follows a head: the framing of the body is decided by the method, the status and the
fields, in that order. -/
def afterHead (r : Reader) (head : Head) (buffer : Bytes) : Move :=
  if head.isInterim then .again (r.goto (.head 0) buffer)
  else if r.method = .head || head.status == 204 || head.status == 304 then
    .stop (.complete head [] true buffer)
  else if head.isChunked then .again (r.goto (.chunkSize head #[]) buffer)
  else match head.headers.first? "Content-Length" with
    | none => .again (r.goto (.untilEnd head) buffer)
    | some value =>
      match Numeral.bounded? 10 Numeral.lengthBound (Blank.trim value).toList with
      | none => fail (.length value) buffer
      | some length =>
        if r.maxBody < length then fail (.bodyTooLong r.maxBody) buffer
        else .again (r.goto (.counted head length) buffer)

/-- The size that a chunk's first line gives, before any semicolon. -/
def chunkSize? (line : Bytes) : Option Nat :=
  match Utf8.decode? line with
  | none => none
  | some text =>
    Numeral.bounded? 16 Numeral.lengthBound
      (Blank.stripEnds Blank.isBlank (text.toList.takeWhile (· != ';')))

/-- The length of a body after one more chunk, no more than the greatest length there is. -/
def grown (length size : Nat) : Nat := min (length + size) (Numeral.lengthBound - 1)

/-- One move on the bytes at hand. -/
def step (r : Reader) : Move :=
  match r.stage with
  | .head searched =>
    match Bytes.find? headEnd searched (r.buffer.drop searched) with
    | some place =>
      let rest := r.buffer.drop (place + 4)
      match Head.ofBytes (r.buffer.take (place + 4)) with
      | .error fault => fail fault rest
      | .ok head => r.afterHead head rest
    | none =>
      if maxHead < r.buffer.length then fail .headTooLarge r.buffer
      else .stop (.wants (r.goto (.head (r.buffer.length - 3)) r.buffer))
  | .counted head length =>
    if r.buffer.length < length then .stop (.wants r)
    else .stop (.complete head (r.buffer.take length) true (r.buffer.drop length))
  | .untilEnd _ =>
    if r.maxBody < r.buffer.length then fail (.bodyTooLong r.maxBody) r.buffer
    else .stop (.wants r)
  | .chunkSize head body =>
    match cutLine r.buffer with
    | none => .stop (.wants r)
    | some (line, rest) =>
      match chunkSize? line with
      | none => fail .chunkSize rest
      | some 0 => .again (r.goto (.trailers head body) rest)
      | some size =>
        if r.maxBody < grown body.size size then fail (.bodyTooLong r.maxBody) rest
        else .again (r.goto (.chunkData head body size) rest)
  | .chunkData head body size =>
    if r.buffer.length < size then .stop (.wants r)
    else .again (r.goto (.chunkEnd head (body ++ r.buffer.take size)) (r.buffer.drop size))
  | .chunkEnd head body =>
    match cutLine r.buffer with
    | none => .stop (.wants r)
    | some (line, rest) =>
      if line.isEmpty then .again (r.goto (.chunkSize head body) rest)
      else fail .chunkEnd rest
  | .trailers head body =>
    match cutLine r.buffer with
    | none => .stop (.wants r)
    | some (line, rest) =>
      if line.isEmpty then .stop (.complete head body.toList true rest)
      else .again (r.goto (.trailers head body) rest)

/-! ### Advancing ends -/

/-- The order in which moves go down. -/
def measure (r : Reader) : Nat × Nat := (r.buffer.length, r.stage.rank)

theorem length_lt_of_cutLine {buffer line rest : Bytes} (h : cutLine buffer = some (line, rest)) :
    rest.length < buffer.length := by
  simp only [cutLine, Option.map_eq_some_iff, Prod.mk.injEq] at h
  obtain ⟨place, hp, -, rfl⟩ := h
  have := Bytes.find?_add_length_le hp
  simp only [lineEnd, List.length_cons, List.length_nil] at this
  simp only [List.length_drop]
  omega

theorem measure_afterHead {r s : Reader} {head : Head} {buffer : Bytes}
    (hlt : buffer.length < r.buffer.length) (h : r.afterHead head buffer = .again s) :
    Prod.Lex (· < ·) (· < ·) s.measure r.measure := by
  have key : s.buffer = buffer := by
    simp only [afterHead] at h
    repeat' split at h
    all_goals first | (cases h; rfl) | cases h
  refine Prod.Lex.left _ _ ?_
  rw [key]
  exact hlt

theorem measure_step {r s : Reader} (h : r.step = .again s) :
    Prod.Lex (· < ·) (· < ·) s.measure r.measure := by
  simp only [step] at h
  split at h
  · split at h
    · next place hp =>
      have := Bytes.find?_add_length_le hp
      simp only [headEnd, List.length_cons, List.length_nil, List.length_drop] at this
      split at h
      · cases h
      · refine measure_afterHead ?_ h
        simp only [List.length_drop]
        omega
    · split at h <;> cases h
  · split at h <;> cases h
  · split at h <;> cases h
  · split at h
    · cases h
    · next hc =>
      split at h
      · cases h
      · cases h
        exact Prod.Lex.left _ _ (length_lt_of_cutLine hc)
      · split at h
        · cases h
        · cases h
          exact Prod.Lex.left _ _ (length_lt_of_cutLine hc)
  · next hs =>
    split at h
    · cases h
    · cases h
      simp only [measure, goto, hs, Stage.rank, List.length_drop]
      rcases Nat.lt_or_eq_of_le (Nat.sub_le r.buffer.length _) with hlt | heq
      · exact Prod.Lex.left _ _ hlt
      · rw [heq]
        exact Prod.Lex.right _ (by omega)
  · split at h
    · cases h
    · next hc =>
      split at h
      · cases h
        exact Prod.Lex.left _ _ (length_lt_of_cutLine hc)
      · cases h
  · split at h
    · cases h
    · next hc =>
      split at h
      · cases h
      · cases h
        exact Prod.Lex.left _ _ (length_lt_of_cutLine hc)

/-- Goes on as far as the bytes at hand allow. -/
def advance (r : Reader) : Verdict :=
  match _h : r.step with
  | .again r => advance r
  | .stop verdict => verdict
termination_by r.measure
decreasing_by exact measure_step _h

/-- The reader with more bytes at hand. -/
def received (r : Reader) (bytes : Bytes) : Reader := { r with buffer := r.buffer ++ bytes }

/-- What the end of the stream means: the end of a body that goes on until then, otherwise that
the reply is cut off. -/
def ended (r : Reader) : Verdict :=
  match r.stage with
  | .untilEnd head => .complete head r.buffer false []
  | _ => .failed .closed r.buffer

end Reader

end Reply

end HttpExchange
