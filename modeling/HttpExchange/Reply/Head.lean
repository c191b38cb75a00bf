import HttpExchange.CallError
import HttpExchange.Text.Blank

/-!
# Heads of replies

A head is text: a status line, field lines and an empty line, each ended by CR LF.
`Reply.Head.ofBytes` reads it; what does not fit is named in the error.
-/

namespace HttpExchange.Reply

/-- The head of a reply. -/
structure Head where
  status : Nat
  reason : String
  version : String
  headers : Headers
  deriving DecidableEq, Repr

/-- The reply with this head and a body. -/
def Head.withBody (h : Head) (body : Bytes) : Reply :=
  { status := h.status, reason := h.reason, version := h.version, headers := h.headers, body }

namespace Head

/-- Cuts text at every CR LF, onto the lines cut so far and the line being read (both newest
first). -/
def linesOnto (lines : List (List Char)) (line : List Char) : List Char → List (List Char)
  | '\r' :: '\n' :: rest => linesOnto (line.reverse :: lines) [] rest
  | c :: rest => linesOnto lines (c :: line) rest
  | [] => (line.reverse :: lines).reverse

/-- The pieces of a text between its line ends. -/
def lines (cs : List Char) : List (List Char) := linesOnto [] [] cs

/-- What a status line says: version, status and reason, separated by one space each.  The reason
may be missing. -/
def statusLine? (line : List Char) : Option (String × Nat × String) :=
  let version := line.takeWhile (· != ' ')
  let rest := (line.dropWhile (· != ' ')).drop 1
  let status := rest.takeWhile (· != ' ')
  let reason := (rest.dropWhile (· != ' ')).drop 1
  if "HTTP/1.".toList.isPrefixOf version then
    match Numeral.bounded? 10 65536 status with
    | some n =>
      if 100 ≤ n ∧ n < 1000 then some (String.ofList version, n, String.ofList reason) else none
    | none => none
  else none

/-- A field line: a name and a value around the first colon, blank space at their ends dropped. -/
def field? (line : List Char) : Option Header :=
  match line.dropWhile (· != ':') with
  | [] => none
  | _ :: value =>
    some ⟨String.ofList (Blank.stripEnds Blank.isBlank (line.takeWhile (· != ':'))),
          String.ofList (Blank.stripEnds Blank.isBlank value)⟩

/-- The fields up to the empty line. -/
def fields (lines : List (List Char)) : Except Fault Headers :=
  (lines.takeWhile (!·.isEmpty)).mapM fun line =>
    match field? line with
    | some h => .ok h
    | none => .error (.fieldLine (String.ofList line))

/-- The head that bytes hold. -/
def ofBytes (bytes : Bytes) : Except Fault Head :=
  match Utf8.decode? bytes with
  | none => .error .headNotText
  | some text =>
    match lines text.toList with
    | [] => .error (.statusLine "")
    | line :: rest =>
      match statusLine? line with
      | none => .error (.statusLine (String.ofList line))
      | some (version, status, reason) => do
        let headers ← fields rest
        return { status, reason, version, headers }

/-- A head that only announces the real one. -/
def isInterim (h : Head) : Bool := 100 ≤ h.status && h.status < 200 && h.status != 101

/-- Whether the body comes in chunks. -/
def isChunked (h : Head) : Bool :=
  match h.headers.first? "Transfer-Encoding" with
  | some value => Ascii.occursIn "chunked".toList (value.toList.map Char.toLower)
  | none => false

/-- Whether the far end asks to close after this reply. -/
def asksToClose (h : Head) : Bool :=
  match h.headers.first? "Connection" with
  | some value => Ascii.eqIgnoreCase value "close"
  | none => false

end Head

end HttpExchange.Reply
