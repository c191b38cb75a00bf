import HttpExchange.Document.Scalar

/-!
# Tokens of a document

The marks and scalars of a document, in order, with the nesting that indentation expresses made
explicit (`blockSequence`, `blockMapping`, `blockEnd`).  A key in a block is known as one only at
its colon; the place where it began is remembered until then (`PendingKey`).
-/

namespace HttpExchange.Document

/-- A token. -/
inductive Token
  | directive
  | documentStart
  | documentEnd
  | blockSequence
  | blockMapping
  | blockEnd
  | flowSequence
  | flowSequenceEnd
  | flowMapping
  | flowMappingEnd
  | blockEntry
  | flowEntry
  | key
  | value
  | alias (name : String)
  | anchor (name : String)
  | tag (text : String)
  /-- A scalar; `bare` if it is a plain one. -/
  | scalar (text : String) (bare : Bool)
  deriving DecidableEq, Repr

/-- Where a key may have begun: the number of its first token, its line, column and index. -/
structure PendingKey where
  token : Nat
  line : Nat
  column : Nat
  index : Nat
  /-- Whether what stands there has to be a key. -/
  required : Bool

/-- A reader of tokens: the characters left, the indentations around them (innermost first), the
brackets open, whether a key may begin here, the keys that may have begun in each pair of brackets
and outside all, and the tokens found (in order). -/
structure Scan where
  rest : List Spot
  indent : Int := -1
  outer : List Int := []
  depth : Nat := 0
  keyAllowed : Bool := true
  pending : List (Option PendingKey) := [none]
  tokens : Array Token := #[]

namespace Scan

/-- Whether brackets are open. -/
def inFlow (s : Scan) : Bool := 0 < s.depth

/-- The column of the next character. -/
def column (s : Scan) : Nat :=
  match s.rest with
  | [] => 0
  | x :: _ => x.column

/-- The scan with one more token. -/
def emit (s : Scan) (t : Token) : Scan := { s with tokens := s.tokens.push t }

/-- The scan without its next characters. -/
def skip (s : Scan) (count : Nat) : Scan := { s with rest := s.rest.drop count }

/-- The scan with another answer to whether a key may begin. -/
def allow (s : Scan) (allowed : Bool) : Scan := { s with keyAllowed := allowed }

/-- Skips blank space, comments and line ends.  A line end allows a key outside brackets; a tab is
blank space only where no key may begin. -/
def skipSpace (flow allowed comment : Bool) : List Spot → Bool × List Spot
  | [] => (allowed, [])
  | x :: rest =>
    if isBreak x.char then skipSpace flow (allowed || !flow) false rest
    else if comment then skipSpace flow allowed true rest
    else if x.char == ' ' || (x.char == '\t' && (flow || !allowed)) then
      skipSpace flow allowed false rest
    else if x.char == '#' then skipSpace flow allowed true rest
    else (allowed, x :: rest)

/-! ### Keys that may have begun -/

/-- The key that may have begun in the innermost brackets. -/
def current (s : Scan) : Option PendingKey := s.pending.head?.join

/-- The scan with another such key. -/
def withPending (s : Scan) (k : Option PendingKey) : Scan :=
  { s with pending := k :: s.pending.drop 1 }

/-- Whether a key that may have begun is too far back: it has to be on one line and close by. -/
def isStale (s : Scan) (k : PendingKey) : Bool :=
  match s.rest with
  | [] => true
  | x :: _ => k.line < x.line || k.index + 1024 < x.index

/-- Drops keys that are too far back.  One that has to be a key is then a fault. -/
def dropStale (s : Scan) : Option Scan := do
  let pending ← s.pending.mapM fun entry =>
    match entry with
    | none => some none
    | some k => if s.isStale k then (if k.required then none else some none) else some (some k)
  return { s with pending }

/-- Gives up the key that may have begun in the innermost brackets. -/
def dropKey (s : Scan) : Option Scan :=
  match s.current with
  | some k => if k.required then none else some (s.withPending none)
  | none => some s

/-- Remembers that a key may begin here. -/
def saveKey (s : Scan) : Option Scan :=
  if s.keyAllowed then
    match s.rest with
    | [] => some s
    | x :: _ => do
      let required := !s.inFlow && s.indent == (x.column : Int)
      let s ← s.dropKey
      return s.withPending (some { token := s.tokens.size, line := x.line, column := x.column,
                                   index := x.index, required })
  else some s

/-! ### Indentation -/

/-- Closes blocks down to a column. -/
def unroll (s : Scan) (column : Int) : Scan :=
  if s.inFlow then s
  else
    let closed := (s.indent :: s.outer).takeWhile (column < ·)
    match (s.indent :: s.outer).dropWhile (column < ·) with
    | [] => s
    | indent :: outer =>
      { s with indent, outer, tokens := s.tokens ++ closed.map fun _ => Token.blockEnd }

/-- Opens a block at a column, unless one is open there already.  Its token goes to the given
place, or to the end. -/
def roll (s : Scan) (column : Nat) (place : Option Nat) (t : Token) : Scan :=
  if s.inFlow || (column : Int) ≤ s.indent then s
  else
    { s with indent := column, outer := s.indent :: s.outer,
             tokens := s.tokens.toList.insertIdx (place.getD s.tokens.size) t |>.toArray }

/-! ### Single tokens -/

/-- An opening bracket. -/
def openFlow (s : Scan) (t : Token) : Option Scan := do
  let s ← s.saveKey
  return (({ s with depth := s.depth + 1, pending := none :: s.pending }.allow true).skip 1).emit t

/-- A closing bracket. -/
def closeFlow (s : Scan) (t : Token) : Option Scan := do
  let s ← s.dropKey
  let s := if s.inFlow then { s with depth := s.depth - 1, pending := s.pending.drop 1 } else s
  return ((s.allow false).skip 1).emit t

/-- The entry mark of a block sequence. -/
def entry (s : Scan) : Option Scan := do
  if !s.inFlow && !s.keyAllowed then none
  let s ← (s.roll s.column none .blockSequence).dropKey
  return ((s.allow true).skip 1).emit .blockEntry

/-- The mark of a key. -/
def keyMark (s : Scan) : Option Scan := do
  if !s.inFlow && !s.keyAllowed then none
  let s ← (s.roll s.column none .blockMapping).dropKey
  return ((s.allow (!s.inFlow)).skip 1).emit .key

/-- The mark of a value: what began before it is a key, if something may have. -/
def valueMark (s : Scan) : Option Scan :=
  match s.current with
  | some k =>
    let s := { s with tokens := (s.tokens.toList.insertIdx k.token Token.key).toArray }
    let s := (s.roll k.column (some k.token) .blockMapping).withPending none
    some (((s.allow false).skip 1).emit .value)
  | none =>
    if !s.inFlow && !s.keyAllowed then none
    else
      let s := s.roll s.column none .blockMapping
      some (((s.allow (!s.inFlow)).skip 1).emit .value)

/-- Whether a character may stand in an anchor's name. -/
def isNameChar (c : Char) : Bool :=
  ('0' ≤ c && c ≤ '9') || ('a' ≤ c && c ≤ 'z') || ('A' ≤ c && c ≤ 'Z') || c == '_' || c == '-'

/-- An anchor or an alias. -/
def named (s : Scan) (make : String → Token) : Option Scan := do
  let s ← s.saveKey
  let name := ((s.rest.drop 1).takeWhile (isNameChar ·.char)).map (·.char)
  let after := s.rest.drop (name.length + 1)
  let ends := atBlank after || after.head?.any fun x =>
    ['?', ':', ',', ']', '}', '%', '@', '\x60'].contains x.char
  if name.isEmpty || !ends then none
  return ({ s with rest := after }.allow false).emit (make (String.ofList name))

/-- A tag: one of the standard handles and a name, or a name in angle brackets. -/
def tagMark (s : Scan) : Option Scan := do
  let s ← s.saveKey
  let stops (x : Spot) : Bool :=
    isGap x.char || isBreak x.char || (s.inFlow && isFlowMark x.char)
  let text := (s.rest.takeWhile (!stops ·)).map (·.char)
  let after := s.rest.drop text.length
  let inner := text.drop 1
  let known := match inner with
    | '<' :: more => more.getLast? == some '>' && 2 ≤ more.length
    | '!' :: more => !more.isEmpty && !more.contains '!'
    | more => !more.contains '!'
  if !known || !(atBlank after || (s.inFlow && atChar ',' after)) then none
  return ({ s with rest := after }.allow false).emit (.tag (String.ofList text))

/-- A directive: only those on the version and on tag handles are known. -/
def directive (s : Scan) : Option Scan := do
  let s ← (s.unroll (-1)).dropKey
  let line := (s.rest.takeWhile (!isBreak ·.char)).map (·.char)
  let words := ((String.ofList line).splitOn " ").filter (!·.isEmpty)
  let known := match words with
    | "%YAML" :: version :: more =>
      (version == "1.1" || version == "1.2") && (more.head?.all (·.startsWith "#"))
    | "%TAG" :: _ :: _ :: _ => true
    | _ => false
  if !known then none
  return ({ s with rest := s.rest.drop line.length }.allow false).emit .directive

/-- The mark of a document's start or end. -/
def documentMark (s : Scan) (t : Token) : Option Scan := do
  let s ← (s.unroll (-1)).dropKey
  return ((s.allow false).skip 3).emit t

/-- A quoted scalar. -/
def quoted (s : Scan) (read : List Spot → Option (List Char × List Spot)) : Option Scan := do
  let s ← s.saveKey
  let (text, rest) ← read (s.rest.drop 1)
  return ({ s with rest }.allow false).emit (.scalar (String.ofList text) false)

/-- A block scalar. -/
def blockScalar (s : Scan) (literal : Bool) : Option Scan := do
  let s ← s.dropKey
  let (text, rest) ← block literal s.indent (s.rest.drop 1)
  return ({ s with rest }.allow true).emit (.scalar (String.ofList text) false)

/-- A plain scalar.  A line end after it allows a key. -/
def plainScalar (s : Scan) : Option Scan := do
  let s ← s.saveKey
  let (text, broken, rest) ← plain s.inFlow (s.indent + 1).toNat [] {} s.rest
  return ({ s with rest }.allow broken).emit (.scalar (String.ofList text) true)

/-- The characters that begin no plain scalar. -/
def isIndicator (c : Char) : Bool :=
  ['-', '?', ':', ',', '[', ']', '{', '}', '#', '&', '*', '!', '|', '>', '"', '%', '@',
   '\x60'].contains c || c.toNat == 0x27

/-- Reads the token that begins with the next character. -/
def token (s : Scan) (x : Spot) (after : List Spot) : Option Scan :=
  let c := x.char
  if x.column == 0 && c == '%' then s.directive
  else if atMarker '-' s.rest then s.documentMark .documentStart
  else if atMarker '.' s.rest then s.documentMark .documentEnd
  else if c == '[' then s.openFlow .flowSequence
  else if c == '{' then s.openFlow .flowMapping
  else if c == ']' then s.closeFlow .flowSequenceEnd
  else if c == '}' then s.closeFlow .flowMappingEnd
  else if c == ',' then do
    let s ← s.dropKey
    return ((s.allow true).skip 1).emit .flowEntry
  else if c == '-' && atBlank after then s.entry
  else if c == '?' && (s.inFlow || atBlank after) then s.keyMark
  else if c == ':' && (s.inFlow || atBlank after) then s.valueMark
  else if c == '*' then s.named .alias
  else if c == '&' then s.named .anchor
  else if c == '!' then s.tagMark
  else if c == '|' && !s.inFlow then s.blockScalar true
  else if c == '>' && !s.inFlow then s.blockScalar false
  else if c.toNat == 0x27 then s.quoted (singleQuoted [] {})
  else if c == '"' then s.quoted (doubleQuoted [] {})
  else if (!isIndicator c && !isGap c) || (c == '-' && !(after.head?.any (isGap ·.char)))
      || (!s.inFlow && (c == '?' || c == ':') && !atBlank after) then s.plainScalar
  else none

/-- Reads tokens to the end of the document; every token takes at least one character. -/
def run (s : Scan) : Nat → Option (Array Token)
  | 0 => none
  | fuel + 1 => do
    let (allowed, rest) := skipSpace s.inFlow s.keyAllowed false s.rest
    let s ← { s with keyAllowed := allowed, rest }.dropStale
    match rest with
    | [] =>
      let s ← (s.unroll (-1)).dropKey
      return s.tokens
    | x :: after => run (← (s.unroll x.column).token x after) fuel

end Scan

/-- The tokens of a document's text. -/
def tokens? (text : String) : Option (List Token) := do
  let spots ← place text
  let found ← ({ rest := spots } : Scan).run (spots.length + 1)
  return found.toList

end HttpExchange.Document
