import HttpExchange.Text.Ascii
import HttpExchange.Text.Numeral
import HttpExchange.Url.Percent

/-!
# Hosts of URLs

A host is a name, an IPv4 address or an IPv6 address.  In a special scheme a name is
percent-decoded, its capitals made small, and refused if it holds a character that no name may
hold; a name whose last label is a number has to be an IPv4 address.  In any other scheme a name
is kept as it stands, with its control characters encoded.

Names of a special scheme are ASCII here: international ones are refused, and labels that stand for
such are not looked into.
-/

namespace HttpExchange

namespace Url

/-- Why a text is not a URL. -/
inductive Fault
  | emptyHost
  | badName
  | badPort
  | badIpv4
  | badIpv6
  | badNameCharacter
  | relativeWithoutBase
  | relativeToOpaqueBase
  deriving DecidableEq, Repr

/-- What a fault says to a reader. -/
def Fault.message : Fault → String
  | emptyHost => "empty host"
  | badName => "invalid international domain name"
  | badPort => "invalid port number"
  | badIpv4 => "invalid IPv4 address"
  | badIpv6 => "invalid IPv6 address"
  | badNameCharacter => "invalid domain character"
  | relativeWithoutBase => "relative URL without a base"
  | relativeToOpaqueBase => "relative URL with a cannot-be-a-base base"

end Url

/-- A host. -/
inductive Host
  | name (text : String)
  /-- Four bytes as one number. -/
  | ipv4 (value : Nat)
  /-- Eight pieces of sixteen bits. -/
  | ipv6 (pieces : List Nat)
  deriving DecidableEq, Repr

namespace Host

/-! ### IPv4 -/

/-- Cuts characters at a separator: always at least one piece. -/
def cutAt (sep : Char) (cs : List Char) : List (List Char) := cs.splitOn sep

/-- A number in an IPv4 address: decimal, octal after `0`, hexadecimal after `0x`. -/
def ipv4Number? : List Char → Option Nat
  | [] => none
  | '0' :: 'x' :: rest | '0' :: 'X' :: rest =>
    if rest.isEmpty then some 0 else Numeral.digits? 16 rest
  | '0' :: c :: rest => Numeral.digits? 8 (c :: rest)
  | cs => Numeral.digits? 10 cs

/-- The labels of a name, without the empty one that a final point leaves. -/
def labels (cs : List Char) : List (List Char) :=
  let parts := cutAt '.' cs
  if 2 ≤ parts.length && parts.getLast? == some [] then parts.dropLast else parts

/-- Whether the last label is a number, so that the name has to be an IPv4 address. -/
def endsInNumber (cs : List Char) : Bool :=
  match (labels cs).getLast? with
  | none => false
  | some last => (!last.isEmpty && last.all Numeral.isDigit) || (ipv4Number? last).isSome

/-- The address that up to four numbers make: the last one fills the bytes that are left. -/
def ipv4Value? (numbers : List Nat) : Option Nat :=
  match numbers.reverse with
  | [] => none
  | last :: others =>
    let room := Nat.pow 256 (4 - others.length)
    if 3 < others.length || others.any (255 < ·) || room ≤ last then none
    else some (others.reverse.foldl (fun value n => value * 256 + n) 0 * room + last)

/-- An IPv4 address. -/
def ipv4? (cs : List Char) : Option Host := do
  let numbers ← (labels cs).mapM ipv4Number?
  (ipv4Value? numbers).map .ipv4

/-- The four bytes of an address, separated by points. -/
def ipv4Text (value : Nat) : String :=
  ".".intercalate
    ([0x1000000, 0x10000, 0x100, 1].map fun unit => Numeral.decimal (value / unit % 256))

/-! ### IPv6 -/

/-- Up to four hexadecimal digits. -/
def piece? (cs : List Char) : Option Nat :=
  if cs.length ≤ 4 then Numeral.digits? 16 cs else none

/-- A byte of the IPv4 form at the end of an IPv6 address: no leading zero. -/
def ipv4Byte? (cs : List Char) : Option Nat :=
  match cs with
  | ['0'] => some 0
  | '0' :: _ => none
  | _ => (if cs.length ≤ 3 then Numeral.digits? 10 cs else none).filter (· < 256)

/-- The two pieces of an IPv4 form. -/
def ipv4Pieces? (cs : List Char) : Option (List Nat) :=
  match (cutAt '.' cs).mapM ipv4Byte? with
  | some [a, b, c, d] => some [a * 256 + b, c * 256 + d]
  | _ => none

/-- Pieces separated by colons; the last may be in IPv4 form if `tail` says so. -/
def pieces? (tail : Bool) : List (List Char) → Option (List Nat)
  | [] => some []
  | [last] => if tail && last.contains '.' then ipv4Pieces? last else (piece? last).map ([·])
  | cs :: rest => do return (← piece? cs) :: (← pieces? tail rest)

/-- Pieces on one side of a double colon, where there may be none. -/
def side? (tail : Bool) (cs : List Char) : Option (List Nat) :=
  if cs.isEmpty then some [] else pieces? tail (cutAt ':' cs)

/-- Cuts at the first double colon. -/
def cutDouble : List Char → Option (List Char × List Char)
  | ':' :: ':' :: rest => some ([], rest)
  | c :: rest => (cutDouble rest).map fun (before, after) => (c :: before, after)
  | [] => none

/-- An IPv6 address: eight pieces, or fewer with one double colon for the zeros left out. -/
def ipv6? (cs : List Char) : Option Host :=
  match cutDouble cs with
  | none => match side? true cs with
    | some ps => if ps.length = 8 then some (.ipv6 ps) else none
    | none => none
  | some (before, after) => match side? false before, side? true after with
    | some ps, some qs =>
      if ps.length + qs.length < 8 then
        some (.ipv6 (ps ++ List.replicate (8 - ps.length - qs.length) 0 ++ qs))
      else none
    | _, _ => none

/-- How many zeros a list starts with. -/
def zerosAhead (ps : List Nat) : Nat := (ps.takeWhile (· = 0)).length

/-- The place and length of the longest run of zeros, the first of equals. -/
def longestZeros (ps : List Nat) : Nat × Nat :=
  (List.range ps.length).foldl (fun best i =>
    let run := zerosAhead (ps.drop i)
    if best.2 < run then (i, run) else best) (0, 0)

/-- Pieces in hexadecimal, separated by colons. -/
def piecesText (ps : List Nat) : String :=
  ":".intercalate (ps.map fun p => String.ofList (Nat.toDigits 16 p))

/-- An IPv6 address with its longest run of at least two zeros left out. -/
def ipv6Text (ps : List Nat) : String :=
  let (place, run) := longestZeros ps
  if run < 2 then piecesText ps
  else piecesText (ps.take place) ++ "::" ++ piecesText (ps.drop (place + run))

/-! ### Names -/

/-- The characters that no name in a special scheme may hold. -/
def isForbiddenInName (c : Char) : Bool :=
  c.toNat ≤ 0x20 || 0x7F ≤ c.toNat
    || ['%', '#', '/', ':', '<', '>', '?', '@', '[', '\\', ']', '^', '|'].contains c

/-- The characters that no opaque name may hold. -/
def isForbiddenInOpaque (c : Char) : Bool :=
  ['\x00', '\t', '\n', '\r', ' ', '#', '/', ':', '<', '>', '?', '@', '[', '\\', ']', '^',
   '|'].contains c

/-- The IPv6 address in brackets, if the text starts with one. -/
def bracketed? (cs : List Char) : Option (Except Url.Fault Host) :=
  match cs with
  | '[' :: rest =>
    some (match rest.getLast?, ipv6? rest.dropLast with
      | some ']', some host => .ok host
      | _, _ => .error .badIpv6)
  | _ => none

/-- The host of a special scheme. -/
def ofSpecial (cs : List Char) : Except Url.Fault Host :=
  match bracketed? cs with
  | some result => result
  | none =>
    let decoded := Percent.decode (Utf8.encode (String.ofList cs))
    let name := decoded.map fun b => (Char.ofNat b.toNat).toLower
    if name.any isForbiddenInName then .error .badName
    else if name.isEmpty then .error .emptyHost
    else if endsInNumber name then
      match ipv4? name with
      | some host => .ok host
      | none => .error .badIpv4
    else .ok (.name (String.ofList name))

/-- The host of any other scheme. -/
def ofOpaque (cs : List Char) : Except Url.Fault Host :=
  match bracketed? cs with
  | some result => result
  | none =>
    if cs.any isForbiddenInOpaque then .error .badNameCharacter
    else .ok (.name (Percent.encodeText Percent.controls cs))

/-- A host as it is written in a URL. -/
def text : Host → String
  | name s => s
  | ipv4 value => ipv4Text value
  | ipv6 pieces => "[" ++ ipv6Text pieces ++ "]"

/-- The host that an empty authority has. -/
def empty : Host := .name ""

end Host

end HttpExchange
