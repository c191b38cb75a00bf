import HttpExchange.Request

/-!
# Reading a request head byte by byte

A `Reader` takes the bytes of a head one at a time and fills a `Draft` as tokens complete.  Input
may be cut anywhere: `Reader.feed` goes on where the last call stopped.  A byte that does not fit
is refused with a `Fault`, and then neither the draft nor the reader's place moves; only the count
of bytes looked at does, which is held under the reader's limit.

The accepted form is a request line, field lines, each perhaps folded over several lines, and an
empty line.  A line ends in CR LF or in LF alone.
-/

namespace HttpExchange.Head

/-- Where in the head the reader is. -/
inductive Phase
  /-- Before the method; stray line ends are skipped. -/
  | start
  | method
  | target
  | version
  /-- After the CR of the request line. -/
  | requestLineEnd
  /-- At the first byte of a field line or of the closing empty line. -/
  | lineStart
  | fieldName
  /-- Before the first byte of a value that is not padding. -/
  | valueStart
  | value
  /-- After the CR of a field line. -/
  | fieldLineEnd
  /-- After the CR of the empty line. -/
  | closing
  | done
  deriving DecidableEq, Repr

/-- Why a head is refused. -/
inductive Fault
  | method
  | target
  | version
  | field
  /-- The head is longer than the limit. -/
  | tooLarge (limit : Nat)
  deriving DecidableEq, Repr

namespace Fault

/-- The name of the fault. -/
def name : Fault → String
  | method => "InvalidMethod"
  | target => "InvalidTarget"
  | version => "InvalidVersion"
  | field => "InvalidHeader"
  | tooLarge _ => "HeadersTooLarge"

/-- What the fault says to a reader. -/
def message : Fault → String
  | method => "invalid request method"
  | target => "invalid request target"
  | version => "invalid or missing protocol version"
  | field => "malformed header line"
  | tooLarge limit => "request header block exceeds " ++ Numeral.decimal limit ++ " bytes"

end Fault

/-- The part of a request that its head tells, as far as it has been read.  Fields stand newest
first, so that a folded line continues the one in front. -/
structure Draft where
  method : Method := .get
  target : String := ""
  version : String := ""
  fields : List Header := []
  deriving DecidableEq, Repr

namespace Draft

/-- The request with this head and the given body. -/
def withBody (d : Draft) (body : Bytes) : Request :=
  { method := d.method, target := d.target, version := d.version, headers := d.fields.reverse,
    body }

/-- The request with this head and no body. -/
def request (d : Draft) : Request := d.withBody []

end Draft

/-- A reader: its place in the head, the bytes of the token it is in (newest first), whether that
token continues the field before it, and how many bytes it has looked at. -/
structure Reader where
  phase : Phase := .start
  token : List UInt8 := []
  folding : Bool := false
  seen : Nat := 0
  limit : Nat
  deriving DecidableEq, Repr

/-- The limit on a head's size where none is given. -/
def defaultLimit : Nat := 64 * 1024

/-! ### Classes of bytes -/

/-- Carriage return. -/
def cr : UInt8 := 0x0D

/-- Line feed. -/
def lf : UInt8 := 0x0A

/-- Either byte of a line end. -/
def isLineEnd (b : UInt8) : Bool := b == cr || b == lf

/-- Letters, digits and the marks ``! # $ % & ' * + - . ^ _ ` | ~``: the bytes of a token. -/
def isTokenByte (b : UInt8) : Bool :=
  (0x30 ≤ b && b ≤ 0x39) || (0x41 ≤ b && b ≤ 0x5A) || (0x61 ≤ b && b ≤ 0x7A)
    || [0x21, 0x23, 0x24, 0x25, 0x26, 0x27, 0x2A, 0x2B, 0x2D, 0x2E, 0x5E, 0x5F, 0x60, 0x7C,
        0x7E].contains b

/-- The control bytes, DEL among them. -/
def isControl (b : UInt8) : Bool := b < 0x20 || b == 0x7F

/-- A decimal digit. -/
def isDigitByte (b : UInt8) : Bool := 0x30 ≤ b && b ≤ 0x39

/-- Whether the bytes are `HTTP/`, a digit, a point and a digit. -/
def isHttpVersion : Bytes → Bool
  | [0x48, 0x54, 0x54, 0x50, 0x2F, major, 0x2E, minor] => isDigitByte major && isDigitByte minor
  | _ => false

/-! ### Steps -/

namespace Reader

/-- A reader at the start of a head. -/
def ofLimit (limit : Nat) : Reader := { limit }

/-- The reader back at the start, under the same limit. -/
def reset (r : Reader) : Reader := ofLimit r.limit

/-- The bytes of the current token as text. -/
def tokenText (r : Reader) : String := Utf8.decode r.token.reverse

/-- The reader with one more byte in its token. -/
def push (r : Reader) (b : UInt8) : Reader := { r with token := b :: r.token }

/-- The reader in another phase. -/
def goto (r : Reader) (phase : Phase) : Reader := { r with phase }

/-- The reader in another phase, its token taken. -/
def take (r : Reader) (phase : Phase) : Reader := { r with phase, token := [] }

/-- The value of a field after one more folded line. -/
def folded (value line : String) : String :=
  if line.isEmpty then value else if value.isEmpty then line else value ++ " " ++ line

/-- Ends a value at a line end: it is stored in the field in front, or joined to that field's
value if the line is a folded one.  Padding at its end is dropped. -/
def finishValue (r : Reader) (d : Draft) (b : UInt8) : Except Fault (Reader × Draft) :=
  match d.fields with
  | [] => .error .field
  | h :: older =>
    let line := Utf8.decode (r.token.dropWhile Blank.isPadding).reverse
    let value := if r.folding then folded h.value line else line
    let next := if b = cr then Phase.fieldLineEnd else Phase.lineStart
    .ok ({ r with phase := next, token := [], folding := false },
         { d with fields := { h with value } :: older })

/-- Takes one byte, or refuses it. -/
def accept (r : Reader) (d : Draft) (b : UInt8) : Except Fault (Reader × Draft) :=
  match r.phase with
  | .start =>
    if isLineEnd b then .ok (r, d)
    else if isTokenByte b then .ok ((r.push b).goto .method, d)
    else .error .method
  | .method =>
    if b = 0x20 then
      match Method.ofName? r.tokenText with
      | some method => .ok (r.take .target, { d with method })
      | none => .error .method
    else if isTokenByte b then .ok (r.push b, d)
    else .error .method
  | .target =>
    if b = 0x20 then
      if r.token.isEmpty then .error .target
      else .ok (r.take .version, { d with target := r.tokenText })
    else if isLineEnd b then .error .version
    else if isControl b then .error .target
    else .ok (r.push b, d)
  | .version =>
    if isLineEnd b then
      if isHttpVersion r.token.reverse then
        .ok (r.take (if b = cr then .requestLineEnd else .lineStart),
             { d with version := r.tokenText })
      else .error .version
    else if 8 ≤ r.token.length then .error .version
    else .ok (r.push b, d)
  | .requestLineEnd => if b = lf then .ok (r.goto .lineStart, d) else .error .version
  | .lineStart =>
    if b = cr then .ok (r.goto .closing, d)
    else if b = lf then .ok (r.goto .done, d)
    else if Blank.isPadding b then
      if d.fields.isEmpty then .error .field
      else .ok ({ r with phase := .valueStart, folding := true }, d)
    else if isTokenByte b then .ok ((r.push b).goto .fieldName, d)
    else .error .field
  | .fieldName =>
    if b = 0x3A then
      .ok (r.take .valueStart, { d with fields := ⟨r.tokenText, ""⟩ :: d.fields })
    else if isTokenByte b then .ok (r.push b, d)
    else .error .field
  | .valueStart =>
    if Blank.isPadding b then .ok (r, d)
    else if isLineEnd b then r.finishValue d b
    else if isControl b then .error .field
    else .ok ((r.push b).goto .value, d)
  | .value =>
    if isLineEnd b then r.finishValue d b
    else if b = 0x09 then .ok (r.push b, d)
    else if isControl b then .error .field
    else .ok (r.push b, d)
  | .fieldLineEnd => if b = lf then .ok (r.goto .lineStart, d) else .error .field
  | .closing => if b = lf then .ok (r.goto .done, d) else .error .field
  | .done => .ok (r, d)

end Reader

/-- What a piece of input came to. -/
inductive Verdict
  /-- The head goes on. -/
  | incomplete
  /-- The head ended after so many bytes of the piece. -/
  | complete (consumed : Nat)
  | failed (fault : Fault)
  deriving DecidableEq, Repr

/-- A verdict with the reader and the draft it leaves. -/
structure Progress where
  verdict : Verdict
  reader : Reader
  draft : Draft
  deriving DecidableEq, Repr

namespace Reader

/-- Takes bytes until the head ends, a byte is refused or the input is used up; `consumed` bytes
of it have been taken before. -/
def feedFrom (r : Reader) (d : Draft) (consumed : Nat) : Bytes → Progress
  | [] => ⟨.incomplete, r, d⟩
  | b :: rest =>
    let r := { r with seen := r.seen + 1 }
    if r.limit < r.seen then ⟨.failed (.tooLarge r.limit), r, d⟩
    else match r.accept d b with
      | .error fault => ⟨.failed fault, r, d⟩
      | .ok (r, d) =>
        if r.phase = .done then ⟨.complete (consumed + 1), r, d⟩
        else feedFrom r d (consumed + 1) rest

/-- Takes one piece of input.  A reader that is done takes nothing more. -/
def feed (r : Reader) (d : Draft) (input : Bytes) : Progress :=
  if r.phase = .done then ⟨.complete 0, r, d⟩ else r.feedFrom d 0 input

end Reader

end HttpExchange.Head
