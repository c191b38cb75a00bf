import HttpExchange.Response

/-!
# Responses on the wire

The head is one buffer, each body segment another.  The head declares the length of the body
unless the response does or may not, and closes the connection unless the response says otherwise.
-/

namespace HttpExchange.Response

/-- One field line. -/
def fieldLine (h : Header) : String := h.name ++ ": " ++ h.value ++ "\r\n"

/-- The head as text. -/
def headText (r : Response) : String :=
  "HTTP/1.1 " ++ Numeral.decimal r.status.code ++ " " ++ r.status.reason ++ "\r\n"
    ++ String.join (r.headers.map fieldLine)
    ++ (if r.needsLength then
          fieldLine ⟨"Content-Length", Numeral.decimal r.bodyLength⟩ else "")
    ++ (if r.headers.has "Connection" then "" else fieldLine ⟨"Connection", "close"⟩)
    ++ "\r\n"

/-- The head as bytes. -/
def headBytes (r : Response) : Bytes := Utf8.encode r.headText

/-- The buffers that make up the response: the head, then the segments that hold something, unless
the status forbids a body. -/
def buffers (r : Response) : List Bytes :=
  r.headBytes :: (if r.status.forbidsBody then [] else r.body.filter (!·.isEmpty))

/-- The whole response as bytes. -/
def wire (r : Response) : Bytes := r.buffers.flatten

end HttpExchange.Response
