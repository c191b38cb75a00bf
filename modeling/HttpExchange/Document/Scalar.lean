import HttpExchange.Document.Spot

/-!
# Scalars in a document

Plain, quoted and block scalars.  Each reader takes the characters from where the scalar starts
and gives its text and what follows.  Line ends inside a scalar fold: one becomes a space, of more
the first is left out.
-/

namespace HttpExchange.Document

/-- Blank space met inside a scalar: gaps on the line, or line ends.  Gaps and the line ends after
the first stand newest first. -/
structure Fold where
  gaps : List Char := []
  broken : Bool := false
  first : Option Char := none
  more : List Char := []

namespace Fold

/-- Whether there is any blank space. -/
def isEmpty (f : Fold) : Bool := f.gaps.isEmpty && !f.broken

/-- One more space or tab; after a line end it does not count. -/
def gap (f : Fold) (c : Char) : Fold := if f.broken then f else { f with gaps := c :: f.gaps }

/-- One more line end. -/
def lineEnd (f : Fold) (c : Char) : Fold :=
  if f.broken then { f with more := c :: f.more } else { broken := true, first := some c }

/-- A line end that is kept out of the text. -/
def escaped : Fold := { broken := true }

/-- What the blank space stands for. -/
def text (f : Fold) : List Char :=
  if f.broken then
    match f.first with
    | none => f.more.reverse
    | some c =>
      if c != '\n' then c :: f.more.reverse
      else if f.more.isEmpty then [' '] else f.more.reverse
  else f.gaps.reverse

end Fold

/-- The characters that end a plain scalar inside brackets. -/
def isFlowMark (c : Char) : Bool := [',', '[', ']', '{', '}'].contains c

/-- Reads a plain scalar; `read` holds what is there already, newest first.  Gives the text, and
whether it was followed by a line end. -/
def plain (flow : Bool) (indent : Nat) (read : List Char) (fold : Fold) :
    List Spot → Option (List Char × Bool × List Spot)
  | [] => some (read.reverse, fold.broken, [])
  | x :: rest =>
    if isGap x.char then
      if fold.broken && x.column < indent && x.char == '\t' then none
      else plain flow indent read (fold.gap x.char) rest
    else if isBreak x.char then plain flow indent read (fold.lineEnd x.char) rest
    else if !fold.isEmpty
        && ((!flow && x.column < indent) || atDocumentMarker (x :: rest) || x.char == '#') then
      some (read.reverse, fold.broken, x :: rest)
    else if flow && x.char == ':'
        && (rest.head?.any fun y => y.char == '?' || isFlowMark y.char) then
      none
    else if (x.char == ':' && atBlank rest) || (flow && isFlowMark x.char) then
      some (read.reverse, fold.broken, x :: rest)
    else plain flow indent (x.char :: (fold.text.reverse ++ read)) {} rest

/-- Reads the rest of a single-quoted scalar.  A quote inside it is written twice. -/
def singleQuoted (read : List Char) (fold : Fold) : List Spot → Option (List Char × List Spot)
  | [] => none
  | x :: rest =>
    if isGap x.char then singleQuoted read (fold.gap x.char) rest
    else if isBreak x.char then singleQuoted read (fold.lineEnd x.char) rest
    else if atDocumentMarker (x :: rest) then none
    else
      let read := fold.text.reverse ++ read
      if x.char.toNat == 0x27 then
        match rest with
        | y :: rest =>
          if y.char.toNat == 0x27 then singleQuoted (y.char :: read) {} rest
          else some (read.reverse, y :: rest)
        | [] => some (read.reverse, [])
      else singleQuoted (x.char :: read) {} rest

/-- The characters that stand for others after a backslash. -/
def escapes : List (Char × Nat) :=
  [('0', 0x00), ('a', 0x07), ('b', 0x08), ('t', 0x09), ('\t', 0x09), ('n', 0x0A), ('v', 0x0B),
   ('f', 0x0C), ('r', 0x0D), ('e', 0x1B), (' ', 0x20), ('"', 0x22), ('/', 0x2F), ('\\', 0x5C),
   ('N', 0x85), ('_', 0xA0), ('L', 0x2028), ('P', 0x2029)]

/-- How many hexadecimal digits follow a letter after a backslash. -/
def escapeDigits : List (Char × Nat) := [('x', 2), ('u', 4), ('U', 8)]

/-- The value of a hexadecimal digit. -/
def hexDigit? (c : Char) : Option Nat :=
  if '0' ≤ c && c ≤ '9' then some (c.toNat - 48)
  else if 'a' ≤ c && c ≤ 'f' then some (c.toNat - 87)
  else if 'A' ≤ c && c ≤ 'F' then some (c.toNat - 55)
  else none

/-- The character of a code written in hexadecimal. -/
def codeChar? (digits : List Char) : Option Char := do
  let values ← digits.mapM hexDigit?
  let code := values.foldl (fun n d => n * 16 + d) 0
  if (0xD800 ≤ code && code ≤ 0xDFFF) || 0x10FFFF < code then none else some (Char.ofNat code)

/-- Reads the rest of a double-quoted scalar. -/
def doubleQuoted (read : List Char) (fold : Fold) (s : List Spot) :
    Option (List Char × List Spot) :=
  match s with
  | [] => none
  | x :: rest =>
    if isGap x.char then doubleQuoted read (fold.gap x.char) rest
    else if isBreak x.char then doubleQuoted read (fold.lineEnd x.char) rest
    else if atDocumentMarker (x :: rest) then none
    else
      let read := fold.text.reverse ++ read
      if x.char == '"' then some (read.reverse, rest)
      else if x.char != '\\' then doubleQuoted (x.char :: read) {} rest
      else match rest with
        | [] => none
        | y :: rest =>
          if isBreak y.char then doubleQuoted read .escaped rest
          else match escapes.lookup y.char, escapeDigits.lookup y.char with
            | some code, _ => doubleQuoted (Char.ofNat code :: read) {} rest
            | none, some count =>
              if rest.length < count then none
              else match codeChar? ((rest.take count).map (·.char)) with
                | some c => doubleQuoted (c :: read) {} (rest.drop count)
                | none => none
            | none, none => none
termination_by s.length
decreasing_by all_goals simp only [List.length_cons, List.length_drop]; omega

/-! ### Block scalars -/

/-- What a block scalar does with the line ends after it. -/
inductive Chomping
  | strip | clip | keep
  deriving DecidableEq, Repr

/-- The chomping that a mark stands for. -/
def chomping? (c : Char) : Option Chomping :=
  if c == '+' then some .keep else if c == '-' then some .strip else none

/-- Reads the marks after `|` or `>`: how to chomp and, perhaps, how far the text is indented. -/
def blockMarks (s : List Spot) : Option (Chomping × Option Nat × List Spot) :=
  let digit? (x : Spot) : Option Nat := if x.char.isDigit then some (x.char.toNat - 48) else none
  match s with
  | [] => some (.clip, none, [])
  | x :: rest =>
    match chomping? x.char, digit? x with
    | some chomp, _ => match rest with
      | y :: after => match digit? y with
        | some 0 => none
        | some n => some (chomp, some n, after)
        | none => some (chomp, none, rest)
      | [] => some (chomp, none, [])
    | none, some 0 => none
    | none, some n => match rest with
      | y :: after => match chomping? y.char with
        | some chomp => some (chomp, some n, after)
        | none => some (.clip, some n, rest)
      | [] => some (.clip, some n, [])
    | none, none => some (.clip, none, x :: rest)

/-- The rest of the line after the marks: blank space and a comment only. -/
def blockHeaderEnd (s : List Spot) : Option (List Spot) :=
  let s := s.dropWhile (isGap ·.char)
  let s := if atChar '#' s then s.dropWhile (!isBreak ·.char) else s
  match s with
  | [] => some []
  | x :: rest => if isBreak x.char then some rest else none

/-- Skips indentation and empty lines.  Gives the line ends met, the furthest column reached and
what follows.  Without a known indentation every space is skipped. -/
def blockBreaks (indent : Option Nat) (breaks : List Char) (furthest : Nat) :
    List Spot → Option (List Char × Nat × List Spot)
  | [] => some (breaks.reverse, furthest, [])
  | x :: rest =>
    let inside := match indent with
      | none => true
      | some n => x.column < n
    if inside && x.char == ' ' then blockBreaks indent breaks (max furthest (x.column + 1)) rest
    else if inside && x.char == '\t' then none
    else if isBreak x.char then blockBreaks indent (x.char :: breaks) furthest rest
    else some (breaks.reverse, furthest, x :: rest)

/-- Reads the lines of a block scalar.  `read` is what is there already (newest first), `ended` the
line end before, `breaks` the empty lines after that, `indented` whether the line before began with
blank space. -/
def blockLines (literal : Bool) (indent : Nat) (read : List Char) (ended : List Char)
    (breaks : List Char) (indented : Bool) (fuel : Nat) (s : List Spot) :
    Option (List Char × List Char × List Char × List Spot) :=
  match fuel, s with
  | fuel + 1, x :: rest =>
    if x.column != indent then some (read, ended, breaks, x :: rest)
    else
      let blank := isGap x.char
      let joint :=
        if !literal && ended == ['\n'] && !indented && !blank then
          if breaks.isEmpty then [' '] else []
        else ended
      let line := ((x :: rest).takeWhile (!isBreak ·.char)).map (·.char)
      let read := line.reverse ++ (breaks.reverse ++ (joint.reverse ++ read))
      match (x :: rest).dropWhile (!isBreak ·.char) with
      | [] => some (read, [], [], [])
      | y :: after => match blockBreaks (some indent) [] 0 after with
        | none => none
        | some (more, _, after) =>
          blockLines literal indent read [y.char] more blank fuel after
  | _, s => some (read, ended, breaks, s)

/-- Reads a block scalar after its `|` or `>`; `parent` is the indentation around it. -/
def block (literal : Bool) (parent : Int) (s : List Spot) : Option (List Char × List Spot) := do
  let (chomp, increment, s) ← blockMarks s
  let s ← blockHeaderEnd s
  let given := increment.map fun n => if 0 ≤ parent then parent.toNat + n else n
  let (breaks, furthest, s) ← blockBreaks given [] 0 s
  let indent := given.getD (max furthest (max (parent + 1).toNat 1))
  let (read, ended, breaks, s) ← blockLines literal indent [] [] breaks false (s.length + 1) s
  let tail := match chomp with
    | .strip => []
    | .clip => ended
    | .keep => ended ++ breaks
  return (read.reverse ++ tail, s)

end HttpExchange.Document
