/-!
# White space at the ends of a text

The blank characters are the 25 code points with the Unicode property `White_Space`.  `trim`
drops them from both ends of a text; `padding` is the narrower class of the two bytes that may
surround a header value on the wire.
-/

namespace HttpExchange.Blank

/-- The Unicode property `White_Space`. -/
def isBlank (c : Char) : Bool :=
  let n := c.toNat
  (0x09 ≤ n && n ≤ 0x0D) || n == 0x20 || n == 0x85 || n == 0xA0 || n == 0x1680
    || (0x2000 ≤ n && n ≤ 0x200A) || n == 0x2028 || n == 0x2029 || n == 0x202F
    || n == 0x205F || n == 0x3000

/-- A list without the leading and trailing elements of a class. -/
def stripEnds {α : Type} (p : α → Bool) (xs : List α) : List α :=
  ((xs.dropWhile p).reverse.dropWhile p).reverse

/-- The text without blank characters at its ends. -/
def trim (s : String) : String := String.ofList (stripEnds isBlank s.toList)

/-- Space or horizontal tab: what may pad a header value. -/
def isPadding (b : UInt8) : Bool := b == 0x20 || b == 0x09

end HttpExchange.Blank
