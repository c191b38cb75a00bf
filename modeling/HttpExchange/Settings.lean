import HttpExchange.Document.Node
import HttpExchange.Options
import HttpExchange.Pool
import HttpExchange.Session

/-!
# Settings

What a server and a client are set to.  Every setting has a default; a document may give others,
section by section.  A setting that is given twice, or with a value of the wrong kind, is refused;
one that is not known is passed over.
-/

namespace HttpExchange

/-- How a server is set. -/
structure ServerSettings where
  listenAddress : String := "127.0.0.1:8080"
  limits : ServingLimits := {}
  deriving DecidableEq, Repr

/-- How a client is set.  Times are in milliseconds. -/
structure ClientSettings where
  timeout : Nat := 30000
  followRedirects : Bool := false
  cacheAddresses : Bool := false
  useProxy : Bool := false
  proxy : Option Url := none
  maxIdlePerHost : Nat := 8
  idleTimeout : Nat := 90000
  maxRedirects : Nat := 5
  deriving DecidableEq, Repr

namespace ClientSettings

/-- The options of a client so set. -/
def clientOptions (s : ClientSettings) : ClientOptions :=
  { followRedirects := s.followRedirects, cacheAddresses := s.cacheAddresses,
    useProxy := s.useProxy, timeout := s.timeout }

/-- The options of its calls. -/
def callOptions (s : ClientSettings) : CallOptions := { maxRedirects := s.maxRedirects }

end ClientSettings

/-- All settings. -/
structure Settings where
  server : ServerSettings := {}
  client : ClientSettings := {}
  deriving DecidableEq, Repr

namespace Settings

open Document

/-! ### Values -/

/-- A number as settings write it: decimal without leading zeros, or after `0x`, `0o` or `0b`; a
plus sign may stand in front. -/
def number? (text : String) : Option Nat :=
  let based? (cs : List Char) : Option Nat :=
    match cs with
    | '0' :: 'x' :: rest => Numeral.digits? 16 rest
    | '0' :: 'o' :: rest => Numeral.digits? 8 rest
    | '0' :: 'b' :: rest => Numeral.digits? 2 rest
    | ['0'] => some 0
    | '0' :: _ => none
    | _ => Numeral.digits? 10 cs
  let value := match text.toList with
    | '+' :: rest => based? rest
    | cs => based? cs
  value.filter (· < Numeral.lengthBound)

/-- A truth value as settings write it. -/
def flag? (text : String) : Option Bool :=
  if ["true", "True", "TRUE"].contains text then some true
  else if ["false", "False", "FALSE"].contains text then some false
  else none

/-- The words for nothing. -/
def isNull (text : String) : Bool := ["null", "Null", "NULL", "~"].contains text

/-- Any scalar, as it stands. -/
def readText : Node → Option String
  | .scalar text _ _ => some text
  | _ => none

/-- A number, not quoted. -/
def readNumber : Node → Option Nat
  | .scalar text true _ => number? text
  | _ => none

/-- A truth value, not quoted. -/
def readFlag : Node → Option Bool
  | .scalar text true _ => flag? text
  | _ => none

/-- A URL, or nothing. -/
def readUrl : Node → Option (Option Url)
  | .scalar text bare tag =>
    let nothing := match tag with
      | none => text.isEmpty || isNull text
      | some tag => tag == "!!null" && isNull text
    if bare && nothing then some none
    else if bare && tag == some "!!null" then none
    else match Url.parse text with
      | .ok url => some (some url)
      | .error _ => none
  | _ => none

/-- The entries of a section; one without a value has none. -/
def entries : Node → Option (List (Node × Node))
  | .mapping es => some es
  | .scalar text true _ => if text.isEmpty then some [] else none
  | _ => none

/-! ### Sections -/

/-- Reads a section entry by entry.  `set` takes a setting that is known and says so; each may come
once. -/
def readSection {α : Type} (known : List String) (set : α → String → Node → Option α) (start : α)
    (n : Node) : Option α := do
  let step : α × List String → Node × Node → Option (α × List String)
    | (current, seen), (key, value) => do
      let name ← readText key
      if known.contains name then
        if seen.contains name then none
        else return (← set current name value, name :: seen)
      else return (current, seen)
  let (done, _) ← (← entries n).foldlM step (start, [])
  return done

/-- Sets one setting of a server. -/
def setServer (s : ServerSettings) (name : String) (n : Node) : Option ServerSettings :=
  match name with
  | "listen_addr" => (readText n).map fun v => { s with listenAddress := v }
  | "read_buffer_size" =>
    (readNumber n).map fun v => { s with limits := { s.limits with readSize := v } }
  | "max_header_bytes" =>
    (readNumber n).map fun v => { s with limits := { s.limits with maxHead := v } }
  | "max_body_bytes" =>
    (readNumber n).map fun v => { s with limits := { s.limits with maxBody := v } }
  | _ => none

/-- Sets one setting of a client. -/
def setClient (s : ClientSettings) (name : String) (n : Node) : Option ClientSettings :=
  match name with
  | "timeout_ms" => (readNumber n).map fun v => { s with timeout := v }
  | "follow_redirects" => (readFlag n).map fun v => { s with followRedirects := v }
  | "cache_resolved" => (readFlag n).map fun v => { s with cacheAddresses := v }
  | "use_proxy" => (readFlag n).map fun v => { s with useProxy := v }
  | "proxy" => (readUrl n).map fun v => { s with proxy := v }
  | "max_idle_per_host" => (readNumber n).map fun v => { s with maxIdlePerHost := v }
  | "idle_timeout_ms" => (readNumber n).map fun v => { s with idleTimeout := v }
  | "max_redirects" => (readNumber n).map fun v => { s with maxRedirects := v }
  | _ => none

/-- The settings of a server. -/
def serverNames : List String :=
  ["listen_addr", "read_buffer_size", "max_header_bytes", "max_body_bytes"]

/-- The settings of a client. -/
def clientNames : List String :=
  ["timeout_ms", "follow_redirects", "cache_resolved", "use_proxy", "proxy", "max_idle_per_host",
   "idle_timeout_ms", "max_redirects"]

/-- Sets one section. -/
def setSection (s : Settings) (name : String) (n : Node) : Option Settings :=
  match name with
  | "server" => (readSection serverNames setServer {} n).map fun server => { s with server }
  | "client" => (readSection clientNames setClient {} n).map fun client => { s with client }
  | _ => none

/-- The settings that a document gives. -/
def ofText? (text : String) : Option Settings :=
  match Node.ofText? text with
  | none => none
  | some none => some {}
  | some (some n) => readSection ["server", "client"] setSection {} n

/-! ### Where settings come from -/

/-- A file that settings are read from. -/
inductive Source
  | unreadable
  | text (content : String)
  deriving DecidableEq, Repr

/-- Why settings cannot be loaded. -/
inductive LoadFault
  | unreadable
  | malformed
  deriving DecidableEq, Repr

/-- A fault in words, for a file at some path. -/
def LoadFault.message (path : String) : LoadFault → String
  | unreadable => "failed to read config file " ++ path
  | malformed => "failed to parse config file " ++ path

/-- Loads settings: from a file if one is named, and with another address to listen on if one is
given. -/
def load (file : Option Source) (listen : Option String) : Except LoadFault Settings := do
  let settings : Settings ← match file with
    | none => .ok {}
    | some .unreadable => .error .unreadable
    | some (.text content) => match ofText? content with
      | some settings => .ok settings
      | none => .error .malformed
  match listen with
  | none => return settings
  | some address =>
    return { settings with server := { settings.server with listenAddress := address } }

end Settings

end HttpExchange
