import HttpExchange.Address

/-!
# Addresses to listen on

A server listens on an IP address and a port, written `address:port`, an IPv6 address in brackets.
-/

namespace HttpExchange

namespace Address

/-- Cuts at the last colon. -/
def cutLastColon (cs : List Char) : Option (List Char × List Char) :=
  match cs.reverse.dropWhile (· != ':') with
  | [] => none
  | _ :: before => some (before.reverse, (cs.reverse.takeWhile (· != ':')).reverse)

/-- The IP address before the port. -/
def listenHost? (cs : List Char) : Option Host :=
  match cs with
  | '[' :: rest => if rest.getLast? == some ']' then Host.ipv6? rest.dropLast else none
  | _ => if String.ofList cs == "localhost" then some (loopback 0).ip else ipv4? cs

/-- The address that a text names. -/
def ofText? (s : String) : Option Address := do
  let (host, port) ← cutLastColon s.toList
  return ⟨← listenHost? host, ← Numeral.bounded? 10 65536 port⟩

end Address

/-- A server cannot listen on what it was given. -/
structure BindFault where
  address : String
  deriving DecidableEq, Repr

/-- The fault in words. -/
def BindFault.message (f : BindFault) : String := "failed to bind " ++ f.address

/-- Finds the address to listen on. -/
def bindAddress (s : String) : Except BindFault Address :=
  match Address.ofText? s with
  | some a => .ok a
  | none => .error ⟨s⟩

end HttpExchange
