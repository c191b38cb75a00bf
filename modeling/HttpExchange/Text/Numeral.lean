/-!
# Numerals

Decimal numerals as they are written in headers, and the two ways they are read: `decimal?`
takes digits only, `signed?` also one leading plus sign.  Lengths live below `lengthBound`.
-/

namespace HttpExchange.Numeral

/-- Lengths and counts are below this bound, the number of values of a 64-bit word. -/
def lengthBound : Nat := 0x10000000000000000

/-- A decimal digit. -/
def isDigit (c : Char) : Bool := '0' ≤ c && c ≤ '9'

/-- The value of a digit in some base up to sixteen; letters of either case count from ten. -/
def digitValue? (base : Nat) (c : Char) : Option Nat :=
  let value :=
    if '0' ≤ c && c ≤ '9' then some (c.toNat - 48)
    else if 'a' ≤ c && c ≤ 'f' then some (c.toNat - 87)
    else if 'A' ≤ c && c ≤ 'F' then some (c.toNat - 55)
    else none
  value.filter (· < base)

/-- The number written by digits, read onto the value so far. -/
def readOnto (base : Nat) (value : Nat) : List Char → Option Nat
  | [] => some value
  | c :: rest => match digitValue? base c with
    | some d => readOnto base (value * base + d) rest
    | none => none

/-- A non-empty run of digits of the base. -/
def digits? (base : Nat) (cs : List Char) : Option Nat :=
  if cs.isEmpty then none else readOnto base 0 cs

/-- A non-empty run of digits after at most one plus sign. -/
def signed? (base : Nat) : List Char → Option Nat
  | '+' :: rest => digits? base rest
  | cs => digits? base cs

/-- A numeral with an optional plus sign whose value is below the bound. -/
def bounded? (base bound : Nat) (cs : List Char) : Option Nat :=
  (signed? base cs).filter (· < bound)

/-- The decimal numeral of a number. -/
def decimal (n : Nat) : String := String.ofList (Nat.toDigits 10 n)

end HttpExchange.Numeral
