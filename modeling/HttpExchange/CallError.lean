import HttpExchange.Address
import HttpExchange.IoError
import HttpExchange.Reply

/-!
# Why a call fails
-/

namespace HttpExchange

/-- What is wrong with the URL of a request or of a proxy. -/
inductive UrlProblem
  | unreadable (input : String) (fault : Url.Fault)
  | noHost (url : String)
  | noPort (url : String)
  | proxyWithoutHost (url : String)
  | proxyWithoutPort (url : String)
  deriving DecidableEq, Repr

/-- Why a call fails; nothing is tried again. -/
inductive CallError
  | unresolved (host : String) (error : IoError)
  | unconnected (address : Address) (error : IoError)
  | io (error : IoError)
  | timedOut
  | badUrl (problem : UrlProblem)
  | unsupportedScheme (scheme : String)
  | badReply (fault : Reply.Fault)
  /-- The far end closed before the reply was complete. -/
  | closed
  | tooManyRedirects (limit : Nat)
  /-- The call was called off. -/
  | aborted
  deriving DecidableEq, Repr

/-- A problem with a URL in words. -/
def UrlProblem.message : UrlProblem → String
  | unreadable input fault => input ++ ": " ++ fault.message
  | noHost url => url ++ ": missing host"
  | noPort url => url ++ ": missing port"
  | proxyWithoutHost url => url ++ ": proxy has no host"
  | proxyWithoutPort url => url ++ ": proxy has no port"

/-- A fault of a reply in words. -/
def Reply.Fault.message : Reply.Fault → String
  | headTooLarge => "response head too large"
  | headNotText => "response head is not UTF-8"
  | statusLine line => "invalid status line: " ++ line
  | fieldLine line => "malformed header: " ++ line
  | length value => "bad Content-Length: " ++ value
  | bodyTooLong limit => "response body exceeds " ++ Numeral.decimal limit ++ " bytes"
  | chunkSize => "bad chunk size"
  | chunkEnd => "missing CRLF after chunk"

namespace CallError

/-- The name of the kind of failure. -/
def name : CallError → String
  | unresolved _ _ => "Resolve"
  | unconnected _ _ => "Connect"
  | io _ => "Io"
  | timedOut => "Timeout"
  | badUrl _ => "InvalidUrl"
  | unsupportedScheme _ => "UnsupportedScheme"
  | badReply _ => "InvalidResponse"
  | closed => "ConnectionClosed"
  | tooManyRedirects _ => "TooManyRedirects"
  | aborted => "Runtime"

/-- A failure in words. -/
def message : CallError → String
  | unresolved host error => "failed to resolve " ++ host ++ ": " ++ error.text
  | unconnected address error => "failed to connect to " ++ address.text ++ ": " ++ error.text
  | io error => "io error: " ++ error.text
  | timedOut => "request timed out"
  | badUrl problem => "invalid url: " ++ problem.message
  | unsupportedScheme scheme => "unsupported scheme: " ++ scheme
  | badReply fault => "invalid response: " ++ fault.message
  | closed => "connection closed"
  | tooManyRedirects limit => "too many redirects (limit " ++ Numeral.decimal limit ++ ")"
  | aborted => "request task failed"

end CallError

end HttpExchange
