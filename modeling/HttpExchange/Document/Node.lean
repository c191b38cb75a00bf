import HttpExchange.Document.Token

/-!
# The tree of a document

What the tokens of a document say: scalars, sequences and mappings.  A document holds at most one
tree.  An alias stands for the node of its anchor; inside that node it stands for nothing that
could be read (`Node.loop`).

The readers take `fuel` with each call; the tokens themselves bound it.
-/

namespace HttpExchange.Document

/-- A node. -/
inductive Node
  /-- A scalar; `bare` if it is a plain one. -/
  | scalar (text : String) (bare : Bool) (tag : Option String)
  | sequence (items : List Node)
  | mapping (entries : List (Node × Node))
  /-- An alias inside its own anchor. -/
  | loop

namespace Node

/-- A scalar that is not there. -/
def empty : Node := .scalar "" true none

/-- What a reader goes on with: the tokens left and the anchors seen. -/
structure Rest where
  tokens : List Token
  anchors : List (String × Node) := []

/-- A reader of part of a document; it may find a fault. -/
abbrev Reader := StateT Rest Option

/-- A fault. -/
def fault {α : Type} : Reader α := failure

/-- The next token. -/
def peek : Reader (Option Token) := do return (← get).tokens.head?

/-- Goes past the next token. -/
def advance : Reader Unit := modify fun r => { r with tokens := r.tokens.drop 1 }

/-- Goes past the next token if it is this one. -/
def take (t : Token) : Reader Bool := do
  if (← peek) == some t then
    advance
    return true
  else return false

/-- Whether the next token is one of these. -/
def atAny (ts : List Token) : Reader Bool := do
  match ← peek with
  | some t => return ts.contains t
  | none => return true

/-- An anchor and a tag, in either order. -/
def properties : Reader (Option String × Option String) := do
  let anchor : Reader (Option String) := do
    match ← peek with
    | some (.anchor name) =>
      advance
      return some name
    | _ => return none
  let tag : Reader (Option String) := do
    match ← peek with
    | some (.tag text) =>
      advance
      return some text
    | _ => return none
  match ← anchor with
  | some name => return (some name, ← tag)
  | none => match ← tag with
    | some text => return (← anchor, some text)
    | none => return (none, none)

/-- Notes what an anchor stands for. -/
def note (anchor : Option String) (n : Node) : Reader Unit :=
  match anchor with
  | some name => modify fun r => { r with anchors := (name, n) :: r.anchors }
  | none => pure ()

mutual

/-- A node.  `inBlock` allows blocks, `bare` a sequence that is not indented. -/
def node (inBlock bare : Bool) : Nat → Reader Node
  | 0 => fault
  | fuel + 1 => do
    if let some (.alias name) := ← peek then
      advance
      match (← get).anchors.lookup name with
      | some n => return n
      | none => fault
    else
      let (anchor, tag) ← properties
      note anchor .loop
      let n ← match ← peek with
        | some (.scalar text plain) => do
          advance
          pure (.scalar text plain tag)
        | some .flowSequence => do
          advance
          pure (.sequence (← flowItems true [] fuel))
        | some .flowMapping => do
          advance
          pure (.mapping (← flowEntries true [] fuel))
        | some .blockEntry =>
          if bare then pure (.sequence (← bareItems [] fuel)) else other anchor tag
        | some .blockSequence =>
          if inBlock then do
            advance
            pure (.sequence (← blockItems [] fuel))
          else other anchor tag
        | some .blockMapping =>
          if inBlock then do
            advance
            pure (.mapping (← blockEntries [] fuel))
          else other anchor tag
        | _ => other anchor tag
      note anchor n
      return n

/-- A node of which there are only an anchor or a tag. -/
def other (anchor tag : Option String) : Reader Node :=
  if anchor.isSome || tag.isSome then pure (.scalar "" true tag) else fault

/-- The items of an indented sequence (those read so far newest first). -/
def blockItems (found : List Node) : Nat → Reader (List Node)
  | 0 => fault
  | fuel + 1 => do
    if ← take .blockEntry then
      let item ← if ← atAny [.blockEntry, .blockEnd] then pure empty else node true false fuel
      blockItems (item :: found) fuel
    else if ← take .blockEnd then return found.reverse
    else fault

/-- The items of a sequence that is not indented. -/
def bareItems (found : List Node) : Nat → Reader (List Node)
  | 0 => fault
  | fuel + 1 => do
    if ← take .blockEntry then
      let item ← if ← atAny [.blockEntry, .key, .value, .blockEnd] then pure empty
        else node true false fuel
      bareItems (item :: found) fuel
    else return found.reverse

/-- The entries of a block mapping. -/
def blockEntries (found : List (Node × Node)) : Nat → Reader (List (Node × Node))
  | 0 => fault
  | fuel + 1 => do
    if ← take .blockEnd then return found.reverse
    if !(← take .key) then fault
    let stops := [Token.key, .value, .blockEnd]
    let key ← if ← atAny stops then pure empty else node true true fuel
    let value ← if ← take .value then
        if ← atAny stops then pure empty else node true true fuel
      else pure empty
    blockEntries ((key, value) :: found) fuel

/-- The items of a sequence in brackets. -/
def flowItems (first : Bool) (found : List Node) : Nat → Reader (List Node)
  | 0 => fault
  | fuel + 1 => do
    if ← take .flowSequenceEnd then return found.reverse
    if !first then
      if !(← take .flowEntry) then fault
    if ← take .flowSequenceEnd then return found.reverse
    if ← take .key then
      let stops := [Token.flowEntry, .flowSequenceEnd]
      let key ← if ← atAny (.value :: stops) then pure empty else node false false fuel
      let value ← if ← take .value then
          if ← atAny stops then pure empty else node false false fuel
        else pure empty
      flowItems false (.mapping [(key, value)] :: found) fuel
    else
      let item ← node false false fuel
      flowItems false (item :: found) fuel

/-- The entries of a mapping in brackets. -/
def flowEntries (first : Bool) (found : List (Node × Node)) : Nat → Reader (List (Node × Node))
  | 0 => fault
  | fuel + 1 => do
    if ← take .flowMappingEnd then return found.reverse
    if !first then
      if !(← take .flowEntry) then fault
    if ← take .flowMappingEnd then return found.reverse
    let stops := [Token.flowEntry, .flowMappingEnd]
    if ← take .key then
      let key ← if ← atAny (.value :: stops) then pure empty else node false false fuel
      let value ← if ← take .value then
          if ← atAny stops then pure empty else node false false fuel
        else pure empty
      flowEntries false ((key, value) :: found) fuel
    else
      let key ← node false false fuel
      flowEntries false ((key, empty) :: found) fuel

end

/-- Goes past the marks of documents' ends. -/
def skipEnds : Nat → Reader Unit
  | 0 => pure ()
  | fuel + 1 => do
    if ← take .documentEnd then skipEnds fuel

/-- Goes past directives; whether there were any. -/
def skipDirectives : Nat → Reader Bool
  | 0 => pure false
  | fuel + 1 => do
    if ← take .directive then
      let _ ← skipDirectives fuel
      return true
    else return false

/-- The tree of a document that begins with its mark, or without one where that is allowed. -/
def document (implicit : Bool) (fuel : Nat) : Reader (Option Node) := do
  if !implicit then skipEnds fuel
  if (← peek).isNone then return none
  let directives ← skipDirectives fuel
  let marks := [Token.directive, .documentStart, .documentEnd]
  if ← take .documentStart then
    let n ← if ← atAny marks then pure empty else node true false fuel
    discard <| take .documentEnd
    return some n
  else if implicit && !directives then
    let n ← if (← peek) == some .documentEnd then fault else node true false fuel
    discard <| take .documentEnd
    return some n
  else fault

/-- Reads a text that holds one document or none. -/
def ofText? (text : String) : Option (Option Node) := do
  let tokens ← tokens? text
  let fuel := 2 * tokens.length + 2
  let both : Reader (Option Node) := do
    let n ← document true fuel
    if n.isSome then
      if (← document false fuel).isSome then fault
    return n
  (both.run { tokens }).map (·.1)

end Node

end HttpExchange.Document
