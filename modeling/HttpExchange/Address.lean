import HttpExchange.Url.Host

/-!
# Where connections go

A `Destination` is what a connection is asked for and looked up by: scheme, host and port.  An
`Address` is what a resolver makes of host and port.
-/

namespace HttpExchange

/-- Scheme, host and port of the far end. -/
structure Destination where
  scheme : String
  host : String
  port : Nat
  deriving DecidableEq, Repr

/-- A destination in words. -/
def Destination.text (d : Destination) : String :=
  d.scheme ++ "://" ++ d.host ++ ":" ++ Numeral.decimal d.port

/-- An IP address and a port. -/
structure Address where
  ip : Host
  port : Nat
  deriving DecidableEq, Repr

namespace Address

/-- An IPv4 address: four decimal bytes without leading zeros. -/
def ipv4? (cs : List Char) : Option Host :=
  match (Host.cutAt '.' cs).mapM Host.ipv4Byte? with
  | some [a, b, c, d] => some (.ipv4 (((a * 256 + b) * 256 + c) * 256 + d))
  | _ => none

/-- An IP address of either kind. -/
def ip? (s : String) : Option Host := (ipv4? s.toList).orElse fun _ => Host.ipv6? s.toList

/-- An IP address in words, without brackets.  An IPv6 address that stands for an IPv4 one shows
that one. -/
def ipText : Host → String
  | .ipv6 [0, 0, 0, 0, 0, 0xFFFF, high, low] =>
    "::ffff:" ++ Host.ipv4Text (high * 65536 + low)
  | .ipv6 pieces => Host.ipv6Text pieces
  | host => host.text

/-- An address in words; an IPv6 address stands in brackets. -/
def text (a : Address) : String :=
  match a.ip with
  | .ipv6 _ => "[" ++ ipText a.ip ++ "]:" ++ Numeral.decimal a.port
  | _ => ipText a.ip ++ ":" ++ Numeral.decimal a.port

/-- The address of this machine, at some port. -/
def loopback (port : Nat) : Address := ⟨.ipv4 0x7F000001, port⟩

end Address

end HttpExchange
