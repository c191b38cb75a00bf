import HttpExchange.Url.Basic

/-!
# Reading URLs

`Url.parse` reads an absolute URL, `Url.join` a reference against a base.  A reference is cut into
scheme, authority, path, query and fragment; what it lacks is taken from the base.  Blank space and
control characters around a reference do not count, tabs and line ends nowhere.
-/

namespace HttpExchange.Url

/-! ### Cutting -/

/-- The characters that count. -/
def significant (s : String) : List Char :=
  let isEdge (c : Char) : Bool := c.toNat ≤ 0x20
  let body := ((s.toList.dropWhile isEdge).reverse.dropWhile isEdge).reverse
  body.filter fun c => !(c == '\t' || c == '\n' || c == '\r')

/-- A letter of ASCII. -/
def isLetter (c : Char) : Bool := ('a' ≤ c && c ≤ 'z') || ('A' ≤ c && c ≤ 'Z')

/-- A character that a scheme may go on with. -/
def isSchemeChar (c : Char) : Bool :=
  isLetter c || Numeral.isDigit c || c == '+' || c == '-' || c == '.'

/-- The scheme, in small letters, and what follows its colon. -/
def cutScheme (cs : List Char) : Option (String × List Char) :=
  match cs with
  | [] => none
  | c :: _ =>
    if isLetter c then
      match cs.dropWhile isSchemeChar with
      | ':' :: rest => some (Ascii.lower (String.ofList (cs.takeWhile isSchemeChar)), rest)
      | _ => none
    else none

/-- A slash; in a special scheme a backslash too. -/
def isSlash (special : Bool) (c : Char) : Bool := c == '/' || (special && c == '\\')

/-- Where a path ends. -/
def isPathEnd (c : Char) : Bool := c == '?' || c == '#'

/-- Where an authority ends. -/
def isAuthorityEnd (special : Bool) (c : Char) : Bool := isSlash special c || isPathEnd c

/-! ### Query and fragment -/

/-- Adds the query and the fragment that stand after a path. -/
def withTail (u : Url) (tail : List Char) : Url :=
  let beforeHash := tail.takeWhile (· != '#')
  let query := match beforeHash with
    | '?' :: q =>
      let set := if isSpecial u.scheme then Percent.specialQuery else Percent.query
      some (Percent.encodeText set q)
    | _ => none
  let fragment := match tail.dropWhile (· != '#') with
    | '#' :: f => some (Percent.encodeText Percent.fragment f)
    | _ => none
  { u with query, fragment }

/-! ### Paths -/

/-- A segment that stands for its own directory. -/
def isSingleDot (s : String) : Bool := [".", "%2e"].contains (Ascii.lower s)

/-- A segment that stands for the directory above. -/
def isDoubleDot (s : String) : Bool :=
  ["..", ".%2e", "%2e.", "%2e%2e"].contains (Ascii.lower s)

/-- A letter and a colon or a bar: a drive. -/
def isDrive : List Char → Bool
  | [c, d] => isLetter c && (d == ':' || d == '|')
  | _ => false

/-- A drive written with a colon. -/
def isNormalDrive : List Char → Bool
  | [c, ':'] => isLetter c
  | _ => false

/-- Whether the text starts with a drive that is a segment of its own. -/
def startsWithDrive : List Char → Bool
  | c :: d :: rest => isDrive [c, d] && (match rest with
    | [] => true
    | e :: _ => e == '/' || e == '\\' || e == '?' || e == '#')
  | _ => false

/-- The segments (last first) without the last, except a drive that stands alone in a file path. -/
def shortenBack (file : Bool) (names : List String) : List String :=
  match names with
  | [only] => if file && isNormalDrive only.toList then [only] else []
  | _ => names.drop 1

/-- Adds a segment as written to the segments so far (last first); `more` says that a slash follows
it. -/
def addSegment (file : Bool) (names : List String) (more : Bool) (segment : List Char) :
    List String :=
  let s := Percent.encodeText Percent.path segment
  if isDoubleDot s then
    let shorter := shortenBack file names
    if more then shorter else "" :: shorter
  else if isSingleDot s then if more then names else "" :: names
  else if file && names.isEmpty && isDrive s.toList then
    [String.ofList (s.toList.take 1) ++ ":"]
  else s :: names

/-- Adds the segments of a path, last first; the one being read is held newest first. -/
def addPath (special file : Bool) (names : List String) (segment : List Char) :
    List Char → List String
  | [] => addSegment file names false segment.reverse
  | c :: rest =>
    if isSlash special c then
      addPath special file (addSegment file names true segment.reverse) [] rest
    else addPath special file names (c :: segment) rest

/-- The segments of a path that goes on from the given ones.  A file path has no empty segments in
front. -/
def pathFrom (scheme : String) (names : List String) (cs : List Char) : Path :=
  let file := scheme == "file"
  let all := (addPath (isSpecial scheme) file names.reverse [] cs).reverse
  if file then
    match all.dropWhile (·.isEmpty) with
    | [] => .segments [""]
    | kept => .segments kept
  else .segments all

/-- The segments without the last, except a drive that stands alone in a file path. -/
def shorten (file : Bool) (names : List String) : List String :=
  (shortenBack file names.reverse).reverse

/-- Reads the path, the query and the fragment; the path goes on from the given segments. -/
def withPathFrom (u : Url) (names : List String) (cs : List Char) : Url :=
  let ends := cs.span (!isPathEnd ·)
  { u with path := pathFrom u.scheme names ends.1 }.withTail ends.2

/-- Reads what follows an authority.  In a special scheme the path has at least one segment. -/
def withPathStart (u : Url) (cs : List Char) : Url :=
  let special := isSpecial u.scheme
  match cs with
  | [] => if special then u.withPathFrom [] [] else u
  | c :: rest =>
    if isSlash special c then u.withPathFrom [] rest
    else if !special && isPathEnd c then u.withTail cs
    else u.withPathFrom [] cs

/-! ### Authorities -/

/-- The user name and password written before an at sign. -/
def readUserinfo (cs : List Char) : String × String :=
  let parts := cs.span (· != ':')
  (Percent.encodeText Percent.userinfo parts.1,
   Percent.encodeText Percent.userinfo (parts.2.drop 1))

/-- Cuts at the last at sign. -/
def cutLastAt (cs : List Char) : Option (List Char × List Char) :=
  let after := cs.reverse.takeWhile (· != '@')
  match cs.reverse.dropWhile (· != '@') with
  | [] => none
  | _ :: before => some (before.reverse, after.reverse)

/-- The characters of a host, up to a colon outside brackets. -/
def hostLength (inside : Bool) : List Char → Nat
  | [] => 0
  | c :: rest =>
    if c == ':' && !inside then 0
    else hostLength (if c == '[' then true else if c == ']' then false else inside) rest + 1

/-- A port: digits up to 65535, or none at all.  The port that the scheme implies is not kept. -/
def readPort (scheme : String) (cs : List Char) : Except Fault (Option Nat) :=
  if cs.isEmpty then .ok none
  else match Numeral.digits? 10 cs with
    | none => .error .badPort
    | some p =>
      if 65535 < p then .error .badPort
      else .ok (if impliedPort? scheme = some p then none else some p)

/-- Host and port. -/
def readHostPort (scheme : String) (cs : List Char) : Except Fault (Host × Option Nat) := do
  let special := isSpecial scheme
  let hostChars := cs.take (hostLength false cs)
  let after := cs.drop (hostLength false cs)
  if special && hostChars.isEmpty then throw .emptyHost
  let host ← if special then Host.ofSpecial hostChars else Host.ofOpaque hostChars
  match after with
  | [] => return (host, none)
  | _ :: port =>
    if host = Host.empty then throw .emptyHost
    return (host, ← readPort scheme port)

/-- Reads an authority and what follows it. -/
def afterSlashes (scheme : String) (cs : List Char) : Except Fault Url := do
  let special := isSpecial scheme
  let authority := cs.takeWhile (!isAuthorityEnd special ·)
  let rest := cs.dropWhile (!isAuthorityEnd special ·)
  match cutLastAt authority with
  | none =>
    let (host, port) ← readHostPort scheme authority
    return { scheme, host := some host, port : Url }.withPathStart rest
  | some (before, after) =>
    if before.isEmpty && after.isEmpty && !rest.isEmpty then throw .emptyHost
    let (username, password) := readUserinfo before
    let (host, port) ← readHostPort scheme after
    if host = Host.empty && !(username.isEmpty && password.isEmpty) then throw .emptyHost
    return { scheme, username, password, host := some host, port : Url }.withPathStart rest

/-! ### References -/

/-- The base with another fragment. -/
def withFragmentOf (base : Url) (cs : List Char) : Url :=
  { base with fragment := some (Percent.encodeText Percent.fragment (cs.drop 1)) }

/-- The segments of a path; a flat one has none. -/
def segmentsOf (u : Url) : List String :=
  match u.path with
  | .segments names => names
  | .flat _ => []

/-- A reference without a scheme, or with that of its base, in any scheme but `file`. -/
def relative (base : Url) (cs : List Char) : Except Fault Url :=
  let special := isSpecial base.scheme
  match cs with
  | [] => .ok { base with fragment := none }
  | '?' :: _ => .ok (base.withTail cs)
  | '#' :: _ => .ok (base.withFragmentOf cs)
  | c :: rest =>
    if isSlash special c then
      match rest with
      | d :: _ =>
        if isSlash special d then
          let after := if c == '/' && d == '/' then cs.drop 2 else cs.dropWhile (isSlash special)
          afterSlashes base.scheme after
        else .ok (base.withPathFrom [] rest)
      | [] => .ok (base.withPathFrom [] rest)
    else .ok (base.withPathFrom (shorten false base.segmentsOf) cs)

/-- Reads the host of a file URL and what follows it.  `localhost` is no host, and before a drive
there is none. -/
def fileHost (cs : List Char) : Except Fault Url := do
  let bare : Url := { scheme := "file", host := some Host.empty }
  let hostChars := cs.takeWhile fun c => !(c == '/' || c == '\\' || c == '?' || c == '#')
  let rest := cs.drop hostChars.length
  if isDrive hostChars then return bare.withPathFrom [] cs
  if hostChars.isEmpty then return bare.withPathStart rest
  let host ← Host.ofSpecial hostChars
  if host = .name "localhost" then return bare.withPathStart rest
  let u := { bare with host := some host }.withPathStart rest
  match u.segmentsOf with
  | first :: _ =>
    return if isNormalDrive first.toList then { u with host := some Host.empty } else u
  | [] => return u

/-- A reference in the scheme `file`. -/
def fileReference (base : Option Url) (cs : List Char) : Except Fault Url :=
  let bare : Url := { scheme := "file", host := some Host.empty }
  match cs with
  | c :: rest =>
    if isSlash true c then
      match rest with
      | d :: after =>
        if isSlash true d then fileHost after
        else .ok (fromRoot bare rest)
      | [] => .ok (fromRoot bare rest)
    else match base with
      | none => .ok (bare.withPathFrom [] cs)
      | some b =>
        if c == '?' then .ok (b.withTail cs)
        else if c == '#' then .ok (b.withFragmentOf cs)
        else if startsWithDrive cs then .ok (bare.withPathFrom [] cs)
        else .ok (b.withPathFrom (shorten true b.segmentsOf) cs)
  | [] => match base with
    | none => .ok (bare.withPathFrom [] [])
    | some b => .ok { b with fragment := none }
where
  /-- A path from the root: the drive or the host of the base stays. -/
  fromRoot (bare : Url) (rest : List Char) : Url :=
    match base with
    | none => bare.withPathFrom [] rest
    | some b =>
      if startsWithDrive rest then bare.withPathFrom [] rest
      else match b.segmentsOf with
        | first :: _ =>
          if isNormalDrive first.toList then bare.withPathFrom [first] rest
          else { bare with host := b.host }.withPathFrom [] rest
        | [] => { bare with host := b.host }.withPathFrom [] rest

/-- A URL in a scheme that is not special. -/
def other (scheme : String) (cs : List Char) : Except Fault Url :=
  match cs with
  | '/' :: '/' :: rest => afterSlashes scheme rest
  | '/' :: rest => .ok ({ scheme : Url }.withPathFrom [] rest)
  | _ =>
    let ends := cs.span (!isPathEnd ·)
    let path := Path.flat (Percent.encodeText Percent.controls ends.1)
    .ok ({ scheme, path : Url }.withTail ends.2)

/-- A reference that names its scheme. -/
def withScheme (base : Option Url) (scheme : String) (cs : List Char) : Except Fault Url :=
  if scheme == "file" then fileReference (base.filter (·.scheme == "file")) cs
  else if isSpecial scheme then
    let slashes := (cs.takeWhile (isSlash true)).length
    match base with
    | some b =>
      if slashes < 2 && b.scheme == scheme then relative b cs
      else afterSlashes scheme (cs.drop slashes)
    | none => afterSlashes scheme (cs.drop slashes)
  else other scheme cs

/-- Reads a reference, against a base if there is one. -/
def read (base : Option Url) (s : String) : Except Fault Url :=
  let cs := significant s
  match cutScheme cs, base with
  | some (scheme, rest), _ => withScheme base scheme rest
  | none, none => .error .relativeWithoutBase
  | none, some b =>
    if cs.head? = some '#' then .ok (b.withFragmentOf cs)
    else if b.isOpaque then .error .relativeToOpaqueBase
    else if b.scheme == "file" then fileReference (some b) cs
    else relative b cs

/-- Reads an absolute URL. -/
def parse (s : String) : Except Fault Url := read none s

/-- Reads a reference against this URL. -/
def join (base : Url) (s : String) : Except Fault Url := read (some base) s

end HttpExchange.Url
