/-!
# Response statuses
-/

namespace HttpExchange

/-- The statuses a handler can answer with. -/
inductive Status
  | ok | created | accepted | noContent
  | movedPermanently | found | seeOther | notModified | temporaryRedirect | permanentRedirect
  | badRequest | unauthorized | forbidden | notFound | methodNotAllowed | payloadTooLarge
  | internalServerError | notImplemented | badGateway | serviceUnavailable | gatewayTimeout
  deriving DecidableEq, Repr

namespace Status

/-- All statuses, in order of their codes. -/
def all : List Status :=
  [ok, created, accepted, noContent, movedPermanently, found, seeOther, notModified,
   temporaryRedirect, permanentRedirect, badRequest, unauthorized, forbidden, notFound,
   methodNotAllowed, payloadTooLarge, internalServerError, notImplemented, badGateway,
   serviceUnavailable, gatewayTimeout]

/-- The three-digit code. -/
def code : Status → Nat
  | ok => 200
  | created => 201
  | accepted => 202
  | noContent => 204
  | movedPermanently => 301
  | found => 302
  | seeOther => 303
  | notModified => 304
  | temporaryRedirect => 307
  | permanentRedirect => 308
  | badRequest => 400
  | unauthorized => 401
  | forbidden => 403
  | notFound => 404
  | methodNotAllowed => 405
  | payloadTooLarge => 413
  | internalServerError => 500
  | notImplemented => 501
  | badGateway => 502
  | serviceUnavailable => 503
  | gatewayTimeout => 504

/-- The reason phrase. -/
def reason : Status → String
  | ok => "OK"
  | created => "Created"
  | accepted => "Accepted"
  | noContent => "No Content"
  | movedPermanently => "Moved Permanently"
  | found => "Found"
  | seeOther => "See Other"
  | notModified => "Not Modified"
  | temporaryRedirect => "Temporary Redirect"
  | permanentRedirect => "Permanent Redirect"
  | badRequest => "Bad Request"
  | unauthorized => "Unauthorized"
  | forbidden => "Forbidden"
  | notFound => "Not Found"
  | methodNotAllowed => "Method Not Allowed"
  | payloadTooLarge => "Payload Too Large"
  | internalServerError => "Internal Server Error"
  | notImplemented => "Not Implemented"
  | badGateway => "Bad Gateway"
  | serviceUnavailable => "Service Unavailable"
  | gatewayTimeout => "Gateway Timeout"

/-- The status of a code. -/
def ofCode? (n : Nat) : Option Status := all.find? (·.code = n)

/-- Statuses whose response has no body, whatever its headers say. -/
def forbidsBody : Status → Bool
  | noContent | notModified => true
  | _ => false

theorem ofCode?_code (s : Status) : ofCode? s.code = some s := by cases s <;> decide

end Status

end HttpExchange
