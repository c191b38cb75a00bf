import HttpExchange.Text.Utf8

/-!
# Percent encoding

Each part of a URL has a set of ASCII characters that it writes as `%` and two capital hexadecimal
digits.  The sets grow from part to part; control characters and everything outside ASCII are
always written so.
-/

namespace HttpExchange.Percent

/-- A set of characters to encode. -/
abbrev Set := Char → Bool

/-- The control characters, DEL and all that is not ASCII. -/
def controls : Set := fun c => c.toNat < 0x20 || 0x7F ≤ c.toNat

/-- The set of the fragment. -/
def fragment : Set := fun c => controls c || [' ', '"', '<', '>', '\x60'].contains c

/-- The set of a path segment. -/
def path : Set := fun c => fragment c || ['#', '?', '{', '}'].contains c

/-- The set of the user name and the password. -/
def userinfo : Set := fun c =>
  path c || ['/', ':', ';', '=', '@', '[', '\\', ']', '^', '|'].contains c

/-- The set of the query. -/
def query : Set := fun c => controls c || [' ', '"', '#', '<', '>'].contains c

/-- The set of the query where the scheme is a special one: the single quote too. -/
def specialQuery : Set := fun c => query c || c.toNat == 0x27

/-- A capital hexadecimal digit. -/
def hexDigit (n : Nat) : Char := if n < 10 then Char.ofNat (48 + n) else Char.ofNat (55 + n)

/-- A byte in its encoded form. -/
def encodeByte (b : UInt8) : List Char := ['%', hexDigit (b.toNat / 16), hexDigit (b.toNat % 16)]

/-- Characters with those of the set encoded. -/
def encode (set : Set) (cs : List Char) : List Char :=
  cs.flatMap fun c => if set c then (String.utf8EncodeChar c).flatMap encodeByte else [c]

/-- Encoded characters as a text. -/
def encodeText (set : Set) (cs : List Char) : String := String.ofList (encode set cs)

/-- The value of a hexadecimal digit. -/
def hexValue? (b : UInt8) : Option UInt8 :=
  if 0x30 ≤ b && b ≤ 0x39 then some (b - 0x30)
  else if 0x41 ≤ b && b ≤ 0x46 then some (b - 0x37)
  else if 0x61 ≤ b && b ≤ 0x66 then some (b - 0x57)
  else none

/-- Bytes with every encoded byte put back.  A `%` without two hexadecimal digits stays. -/
def decode : Bytes → Bytes
  | 0x25 :: h :: l :: rest => match hexValue? h, hexValue? l with
    | some x, some y => (x * 16 + y) :: decode rest
    | _, _ => 0x25 :: decode (h :: l :: rest)
  | b :: rest => b :: decode rest
  | [] => []

end HttpExchange.Percent
