import HttpExchange.Url.Host

/-!
# URLs

The parts of a URL and how they are written out.  `Url.text` is the normal form: a port that the
scheme implies is not kept, and parts are percent-encoded where they have to be.
-/

namespace HttpExchange

namespace Url

/-- A path: segments after slashes, or a text that no other URL can be relative to. -/
inductive Path
  | flat (text : String)
  | segments (names : List String)
  deriving DecidableEq, Repr

/-- A path as it is written. -/
def Path.text : Path → String
  | flat s => s
  | segments names => String.join (names.map ("/" ++ ·))

end Url

/-- A URL by its parts.  A host that is absent and one that is empty differ: the second is written
as an empty authority. -/
structure Url where
  scheme : String
  username : String := ""
  password : String := ""
  host : Option Host := none
  port : Option Nat := none
  path : Url.Path := .segments []
  query : Option String := none
  fragment : Option String := none
  deriving DecidableEq, Repr

namespace Url

/-- The schemes with an authority and a path by rule. -/
def isSpecial (scheme : String) : Bool :=
  ["http", "https", "ws", "wss", "ftp", "file"].contains scheme

/-- The port a scheme implies. -/
def impliedPort? (scheme : String) : Option Nat :=
  [("http", 80), ("https", 443), ("ws", 80), ("wss", 443), ("ftp", 21)].lookup scheme

/-- Whether the path is a flat text. -/
def isOpaque (u : Url) : Bool :=
  match u.path with
  | .flat _ => true
  | .segments _ => false

/-- The host as a text, if there is one that is not empty. -/
def hostText? (u : Url) : Option String :=
  match u.host with
  | none => none
  | some h => if h.text.isEmpty then none else some h.text

/-- The port to connect to: the one given or the one the scheme implies. -/
def effectivePort? (u : Url) : Option Nat := u.port.orElse fun _ => impliedPort? u.scheme

/-- User name and password as they are written before the host. -/
def userinfoText (u : Url) : String :=
  if u.password.isEmpty then
    if u.username.isEmpty then "" else u.username ++ "@"
  else u.username ++ ":" ++ u.password ++ "@"

/-- The port as it is written after the host. -/
def portText (u : Url) : String :=
  match u.port with
  | none => ""
  | some p => ":" ++ Numeral.decimal p

/-- What stands between the scheme and the path.  Without a host, a path that begins with an empty
segment is kept apart from an authority by `/.`. -/
def authorityText (u : Url) : String :=
  match u.host, u.path with
  | some h, _ => "//" ++ u.userinfoText ++ h.text ++ u.portText
  | none, .segments ("" :: _ :: _) => "/."
  | none, _ => ""

/-- The query as it is written, its mark included. -/
def queryText (u : Url) : String :=
  match u.query with
  | none => ""
  | some q => "?" ++ q

/-- The URL without its fragment, as a text. -/
def baseText (u : Url) : String :=
  u.scheme ++ ":" ++ u.authorityText ++ u.path.text ++ u.queryText

/-- The URL as a text. -/
def text (u : Url) : String :=
  match u.fragment with
  | none => u.baseText
  | some f => u.baseText ++ "#" ++ f

/-- The URL without its fragment.  A flat path at the end then loses the blanks at its end. -/
def withoutFragment (u : Url) : Url :=
  match u.path, u.query with
  | .flat s, none =>
    { u with fragment := none,
             path := .flat (String.ofList (s.toList.reverse.dropWhile (· = ' ')).reverse) }
  | _, _ => { u with fragment := none }

/-- A way to read references against a URL. -/
abbrev Joining := Url → String → Except Fault Url

end Url

end HttpExchange
