import HttpExchange.Proofs.Response.Received
import HttpExchange.Session

/-!
# The answer to `HEAD`

A handler answers `HEAD` as it answers `GET`, and the body is taken off afterwards.  The length of
that body is declared in one place where the response goes out whole and in another where it goes
out without its body; the bytes are the same.

* `Response.buffers_withoutBody` — without its body a response is one buffer, its head;
* `Response.wire_withoutBody` — which is the first buffer of the whole response;
* `Session.phase_dispatch_head` — and all that a session writes in answer to `HEAD`.
-/

namespace HttpExchange

namespace Response

/-- **Without its body a response is one buffer**, the head it has with its body. -/
theorem buffers_withoutBody (r : Response) : r.withoutBody.buffers = [r.headBytes] := by
  rw [buffers, headBytes_withoutBody, body_withoutBody, List.filter_nil, ite_self]

/-- **The response to `HEAD` is the head of the whole response**, byte for byte.  Whatever the
status, the fields and the segments of the body are: what is written without the body is the first
buffer of what is written with it, which goes on with the body unless the status forbids one.  It
holds the response's own fields in order, and behind them the length of the body that is left out,
unless a field declares one already or the status forbids it, and then the wish to close, unless a
field speaks of the connection. -/
theorem wire_withoutBody (r : Response) :
    r.buffers.head? = some r.withoutBody.wire ∧
      r.wire = r.withoutBody.wire ++
        (if r.status ∈ [.noContent, .notModified] then [] else r.body.flatten) ∧
      r.withoutBody.wire = Utf8.encode
        ("HTTP/1.1 " ++ Numeral.decimal r.status.code ++ " " ++ r.status.reason ++ "\r\n"
          ++ String.join (r.headers.map fieldLine)
          ++ (if r.headers.first? "Content-Length" = none ∧
                r.status ∉ [.noContent, .notModified] then
              "Content-Length: " ++ Numeral.decimal r.body.flatten.length ++ "\r\n" else "")
          ++ (if r.headers.first? "Connection" = none then "Connection: close\r\n" else "")
          ++ "\r\n") := by
  have hwire : r.withoutBody.wire = r.headBytes := by
    rw [wire, buffers_withoutBody, List.flatten_singleton]
  have hbody : (if r.status.forbidsBody = true then [] else r.bodyBytes) =
      if r.status ∈ [.noContent, .notModified] then [] else r.body.flatten := by
    cases r.status <;> rfl
  refine ⟨?_, ?_, ?_⟩
  · rw [hwire]
    rfl
  · rw [hwire, wire_eq, hbody]
  · rw [hwire, headBytes]
    delta headText
    rw [Headers.ite_has]
    simp only [needsLength_iff]
    rfl

/-- The response has two segments, and nobody has declared its length. -/
example : (withoutBody
      { headers := [⟨"connection", "keep-alive"⟩], body := [[104], [], [105]] }).wire =
    Utf8.encode "HTTP/1.1 200 OK\r\nconnection: keep-alive\r\nContent-Length: 2\r\n\r\n" := by
  decide +kernel

end Response

/-- **All that a session writes in answer to `HEAD`** is the first buffer of what it would write in
answer to `GET`. -/
theorem Session.phase_dispatch_head (handler : Handler) (c : Session) {request : Request}
    (h : request.method = .head) :
    (c.dispatch handler request).phase =
      .writing { pending := [(handler request {}).headBytes] } := by
  rw [dispatch, if_pos h, Delivery.ofResponse, Response.buffers_withoutBody]

end HttpExchange
