import HttpExchange.Header
import HttpExchange.Method
import HttpExchange.Text.Blank
import HttpExchange.Text.Numeral
import HttpExchange.Text.Utf8

/-!
# Requests as a server receives them

A request, the length its headers declare for its body, and the builder that puts one together
from parts.  The declared length is decided by the first `Content-Length` field alone
(`Request.contentLength?`).
-/

namespace HttpExchange

/-- A request as received. -/
structure Request where
  method : Method := .get
  target : String := ""
  version : String := ""
  headers : Headers := []
  body : Bytes := []
  deriving DecidableEq, Repr

/-- Why a declared length cannot be used. -/
inductive LengthFault
  | notDigits
  | overflow
  deriving DecidableEq, Repr

namespace LengthFault

/-- The name of the fault. -/
def name : LengthFault → String
  | notDigits => "NotDigits"
  | overflow => "Overflow"

/-- What the fault says to a reader. -/
def message : LengthFault → String
  | notDigits => "Content-Length is not a decimal number"
  | overflow => "Content-Length does not fit in usize"

end LengthFault

namespace Request

/-- The length a header value denotes: blank space around it does not count, all else has to be
digits, and the number has to be a possible length. -/
def lengthOf (value : String) : Except LengthFault Nat :=
  match Numeral.digits? 10 (Blank.trim value).toList with
  | none => .error .notDigits
  | some n => if n < Numeral.lengthBound then .ok n else .error .overflow

/-- The body length the headers declare, if they declare one. -/
def contentLength? (r : Request) : Option (Except LengthFault Nat) :=
  (r.headers.first? "Content-Length").map lengthOf

end Request

/-- The parts of a request that is being put together. -/
structure RequestParts where
  method : Option Method := none
  target : Option String := none
  version : Option String := none
  headers : Headers := []
  body : Bytes := []
  deriving DecidableEq, Repr

/-- The part without which there is no request. -/
inductive MissingPart
  | method
  | target
  deriving DecidableEq, Repr

/-- What a missing part says to a reader. -/
def MissingPart.message : MissingPart → String
  | method => "method missing"
  | target => "target missing"

/-- The request made of the parts.  The version is `HTTP/1.1` unless given. -/
def RequestParts.build (p : RequestParts) : Except MissingPart Request :=
  match p.method, p.target with
  | none, _ => .error .method
  | some _, none => .error .target
  | some method, some target =>
    .ok { method, target, version := p.version.getD "HTTP/1.1", headers := p.headers,
          body := p.body }

end HttpExchange
