/-!
# Texts and their bytes

`encode` writes a text as UTF-8.  Reading goes through one scan, which cuts the bytes into
well-formed sequences and maximal ill-formed pieces: `decode?` refuses the second kind, `decode`
puts the replacement character for each.
-/

namespace HttpExchange

/-- A run of bytes. -/
abbrev Bytes := List UInt8

namespace Utf8

/-- The bytes of a text. -/
def encode (s : String) : Bytes := s.toList.flatMap String.utf8EncodeChar

/-- What may follow a lead byte: how many continuation bytes, and the range of the first. -/
structure Lead where
  more : Nat
  low : UInt8
  high : UInt8

/-- The lead bytes of sequences of two, three and four bytes.  The narrowed ranges of the second
byte keep out overlong forms, surrogates and values past U+10FFFF. -/
def lead? (b : UInt8) : Option Lead :=
  if 0xC2 ≤ b ∧ b ≤ 0xDF then some ⟨1, 0x80, 0xBF⟩
  else if b = 0xE0 then some ⟨2, 0xA0, 0xBF⟩
  else if b = 0xED then some ⟨2, 0x80, 0x9F⟩
  else if 0xE1 ≤ b ∧ b ≤ 0xEF then some ⟨2, 0x80, 0xBF⟩
  else if b = 0xF0 then some ⟨3, 0x90, 0xBF⟩
  else if b = 0xF4 then some ⟨3, 0x80, 0x8F⟩
  else if 0xF1 ≤ b ∧ b ≤ 0xF3 then some ⟨3, 0x80, 0xBF⟩
  else none

/-- A continuation byte. -/
def isContinuation (b : UInt8) : Bool := 0x80 ≤ b && b ≤ 0xBF

/-- Reads up to `more` continuation bytes onto the value so far, counting them.  Gives the
character when all are there, and in both cases how many bytes were taken. -/
def continueFrom (more : Nat) (value taken : Nat) (rest : Bytes) : Option Char × Nat :=
  match more, rest with
  | 0, _ => (some (Char.ofNat value), taken)
  | _ + 1, [] => (none, taken)
  | more + 1, b :: rest =>
    if isContinuation b then continueFrom more (value * 64 + (b.toNat - 0x80)) (taken + 1) rest
    else (none, taken)

/-- The first piece of the bytes `b :: rest`: its character, if it is well formed, and how many
bytes of `rest` belong to it. -/
def firstPiece (b : UInt8) (rest : Bytes) : Option Char × Nat :=
  if b < 0x80 then (some (Char.ofNat b.toNat), 0)
  else match lead? b, rest with
    | none, _ => (none, 0)
    | some _, [] => (none, 0)
    | some l, c :: rest =>
      if l.low ≤ c ∧ c ≤ l.high then
        let bits := b.toNat - (if l.more = 1 then 0xC0 else if l.more = 2 then 0xE0 else 0xF0)
        continueFrom (l.more - 1) (bits * 64 + (c.toNat - 0x80)) 1 rest
      else (none, 0)

/-- Cuts bytes into pieces, onto the pieces found so far (newest first). -/
def scanOnto (found : List (Option Char)) : Bytes → List (Option Char)
  | [] => found.reverse
  | b :: rest =>
    let piece := firstPiece b rest
    scanOnto (piece.1 :: found) (rest.drop piece.2)
termination_by bytes => bytes.length
decreasing_by simp only [List.length_drop, List.length_cons]; omega

/-- The pieces of a run of bytes: a character, or nothing for a maximal ill-formed piece. -/
def scan (bytes : Bytes) : List (Option Char) := scanOnto [] bytes

/-- The text, if every piece is well formed. -/
def decode? (bytes : Bytes) : Option String :=
  let pieces := scan bytes
  if pieces.all Option.isSome then some (String.ofList (pieces.filterMap id)) else none

/-- The text, with U+FFFD for each ill-formed piece. -/
def decode (bytes : Bytes) : String :=
  String.ofList ((scan bytes).map fun piece => piece.getD (Char.ofNat 0xFFFD))

end Utf8

end HttpExchange
