/-!
# Characters with their places

A document is read as a list of characters that know their line and column.  The line ends CR,
LF, CR LF and NEL all become one LF; the two Unicode separators stay as they are and end lines too.
-/

namespace HttpExchange.Document

/-- A character and where it stands. -/
structure Spot where
  char : Char
  line : Nat
  column : Nat
  index : Nat
  deriving DecidableEq, Repr

/-- The characters a document may hold. -/
def isAllowed (c : Char) : Bool :=
  let n := c.toNat
  n == 0x09 || n == 0x0A || n == 0x0D || (0x20 ≤ n && n ≤ 0x7E) || n == 0x85
    || (0xA0 ≤ n && n ≤ 0xD7FF) || (0xE000 ≤ n && n ≤ 0xFFFD) || 0x10000 ≤ n

/-- A character that ends a line, once line ends are made one. -/
def isBreak (c : Char) : Bool := c == '\n' || c.toNat == 0x2028 || c.toNat == 0x2029

/-- A space or a tab. -/
def isGap (c : Char) : Bool := c == ' ' || c == '\t'

/-- Places the characters, from a place on. -/
def placeFrom (line column index : Nat) : List Char → List Spot
  | [] => []
  | '\r' :: '\n' :: rest => ⟨'\n', line, column, index⟩ :: placeFrom (line + 1) 0 (index + 1) rest
  | c :: rest =>
    let c := if c == '\r' || c.toNat == 0x85 then '\n' else c
    if isBreak c then ⟨c, line, column, index⟩ :: placeFrom (line + 1) 0 (index + 1) rest
    else ⟨c, line, column, index⟩ :: placeFrom line (column + 1) (index + 1) rest

/-- The characters of a document, without a byte order mark in front. -/
def place (text : String) : Option (List Spot) :=
  let cs := match text.toList with
    | c :: rest => if c.toNat = 0xFEFF then rest else c :: rest
    | [] => []
  if cs.all isAllowed then some (placeFrom 0 0 0 cs) else none

/-- Whether nothing, a gap or a line end comes next. -/
def atBlank : List Spot → Bool
  | [] => true
  | x :: _ => isGap x.char || isBreak x.char

/-- Whether this character comes next. -/
def atChar (c : Char) : List Spot → Bool
  | [] => false
  | x :: _ => x.char == c

/-- Whether three of this character stand at the start of a line, with blank space after them. -/
def atMarker (c : Char) : List Spot → Bool
  | x :: y :: z :: rest =>
    x.column == 0 && x.char == c && y.char == c && z.char == c && atBlank rest
  | _ => false

/-- Whether the marker of a document's start or end comes next. -/
def atDocumentMarker (s : List Spot) : Bool := atMarker '-' s || atMarker '.' s

end HttpExchange.Document
