import Mathlib.Data.Bool.AllAny
import HttpExchange.Link
import HttpExchange.Proofs.Reply.Written
import HttpExchange.Proofs.Stream.Arrivals

/-!
# What an exchange makes of the bytes that arrive

* `Settled` — how an exchange is over, given what all the bytes that arrive come to and how they end;
* `receive_settled` — so it is over, however the bytes are cut into reads;
* `send_finds` — a reply that is written is found, and the bytes behind it are left.
-/

namespace HttpExchange

namespace Exchange

/-- How an exchange on a link is over when all the bytes that arrive come to this verdict and end in
this way.  Of the bytes behind a reply some have been read into the buffer, the others are still to
come. -/
def Settled (link : Link) (ending : Stream.Ending) (verdict : Reply.Verdict) (p : Progress) : Prop :=
  match verdict with
  | .complete head body delimited buffer =>
    ∃ rest, p.outcome = .finished (.ok (head.withBody body)) ∧
      p.link = { link with buffer := rest, reusable := leavesReusable head delimited rest } ∧
      rest ++ p.stream.delivered = buffer
  | .failed error buffer =>
    ∃ rest, p.outcome = .finished (.error error) ∧ p.link = { link with buffer := rest } ∧
      rest ++ p.stream.delivered = buffer
  | .wants r =>
    match ending with
    | .ended =>
      match r.stage with
      | .untilEnd head =>
        p.outcome = .finished (.ok (head.withBody r.buffer)) ∧
          p.link = { link with buffer := [], reusable := false }
      | _ =>
        p.outcome = .finished (.error .closed) ∧ p.link = { link with buffer := r.buffer }
    | .failed error =>
      p.outcome = .finished (.error (.io error)) ∧ p.link = { link with buffer := r.buffer }
    | .never =>
      (∃ wake, p.outcome = .waiting (.receiving r.method r.stage) wake) ∧
        p.link = { link with buffer := r.buffer }

/-! ### One round -/

section Round

variable {patient : Bool} {now : Nat} {link : Link} {r u : Reply.Reader} {s : Stream}

theorem receive_of_complete {head : Reply.Head} {body : Bytes} {delimited : Bool} {buffer : Bytes}
    (h : r.advance = .complete head body delimited buffer) :
    receive patient now link r s =
      ⟨.finished (.ok (head.withBody body)), now,
        { link with buffer, reusable := leavesReusable head delimited buffer }, s⟩ := by
  rw [receive, h]

theorem receive_of_failed {error : CallError} {buffer : Bytes}
    (h : r.advance = .failed error buffer) :
    receive patient now link r s =
      ⟨.finished (.error error), now, { link with buffer }, s⟩ := by
  rw [receive, h]

/-- A reader that asks for more takes what one read brings. -/
theorem receive_of_wants (h : r.advance = .wants u) :
    receive patient now link r s =
      match s.read patient now s.perRead with
      | (.data bytes, clock, t) => receive patient clock link (u.received bytes) t
      | (.failed error, clock, t) =>
        ⟨.finished (.error (.io error)), clock, { link with buffer := u.buffer }, t⟩
      | (.waiting wake, clock, t) =>
        ⟨.waiting (.receiving u.method u.stage) wake, clock, { link with buffer := u.buffer }, t⟩
      | (.ended, clock, t) =>
        match u.ended with
        | .complete head body delimited buffer =>
          ⟨.finished (.ok (head.withBody body)), clock,
            { link with buffer, reusable := leavesReusable head delimited buffer }, t⟩
        | .failed error buffer => ⟨.finished (.error error), clock, { link with buffer }, t⟩
        | .wants v => ⟨.finished (.error .closed), clock, { link with buffer := v.buffer }, t⟩ := by
  rw [receive, h]
  simp only
  split
  all_goals
    next hread =>
    rewrite [hread]
    rfl

end Round

/-- A far end that takes all it is given takes the request. -/
theorem writeAll_of_willing {s : Stream} (h : s.writes = []) (bytes : Bytes) :
    writeAll bytes s = ([], none, { s with written := s.written ++ bytes }) := by
  cases bytes with
  | nil => rw [writeAll, List.append_nil]
  | cons b rest =>
    have hwrite : s.write (b :: rest) =
        (.accepted (rest.length + 1), { s with written := s.written ++ b :: rest }) := by
      rw [Stream.write, h]
      rfl
    rw [writeAll, hwrite]
    simp only
    rw [List.drop_length, writeAll]

/-! ### The whole exchange -/

/-- A reader that has been given bytes in turn and one that holds them all still come to the same:
this is kept by every read.  Here `hkept` says that what is read later changes no verdict. -/
theorem receive_settled_of_follows {link : Link} {q r : Reply.Reader} {s : Stream} (hq : q.Placed)
    (hfollows : ∀ y, (r.received y).advance = (q.received y).advance) (now : Nat)
    (hkept : ∀ pieces rest, s.Yields now pieces → s.delivered = pieces.flatten ++ rest →
      (q.received s.delivered).advance = (q.received pieces.flatten).advance.received rest) :
    Settled link s.ending (q.received s.delivered).advance (receive true now link r s) := by
  induction hweight : s.weight using Nat.strong_induction_on generalizing q r s now with
  | _ weight ih =>
    have hadvance : r.advance = q.advance := by simpa using hfollows []
    have hwhole : (q.received s.delivered).advance = q.advance.received s.delivered := by
      simpa using hkept [] s.delivered .none rfl
    cases hv : q.advance with
    | complete head body delimited buffer =>
      rw [hwhole, hv, receive_of_complete (hadvance.trans hv)]
      exact ⟨buffer, rfl, rfl, rfl⟩
    | failed error buffer =>
      rw [hwhole, hv, receive_of_failed (hadvance.trans hv)]
      exact ⟨buffer, rfl, rfl, rfl⟩
    | wants u =>
      have hbrings := Stream.read_brings s now s.perRead_pos
      rw [receive_of_wants (hadvance.trans hv)]
      generalize hread : s.read true now s.perRead = result at hbrings
      obtain ⟨reading, clock, t⟩ := result
      cases hbrings with
      | data nonempty alike delivers ends =>
        next bytes =>
        have hlt : t.weight < weight := hweight ▸ Stream.weight_lt_of_read_data s.perRead_pos hread
        have hrest : (q.received bytes).received t.delivered = q.received s.delivered := by
          rw [Reply.Reader.received_received, ← delivers]
        have hfollows' : ∀ y, ((u.received bytes).received y).advance =
            ((q.received bytes).received y).advance := by
          intro y
          rw [Reply.Reader.received_received, Reply.Reader.received_received,
            ← Reply.Reader.advance_received_of_wants hq hv]
        have hkept' : ∀ pieces rest, t.Yields clock pieces → t.delivered = pieces.flatten ++ rest →
            ((q.received bytes).received t.delivered).advance =
              ((q.received bytes).received pieces.flatten).advance.received rest := by
          intro pieces rest hpieces ht
          rw [hrest, Reply.Reader.received_received]
          exact hkept (bytes :: pieces) rest (.more hread hpieces)
            (by rw [delivers, ht, List.flatten_cons, List.append_assoc])
        have hnext := ih t.weight hlt (hq.received bytes) hfollows' clock hkept' rfl
        rw [hrest, ← ends] at hnext
        exact hnext
      | failed alike delivers ends =>
        rw [delivers, Reply.Reader.received_nil, hv, ends]
        exact ⟨rfl, rfl⟩
      | waiting alike delivers ends =>
        rw [delivers, Reply.Reader.received_nil, hv, ends]
        exact ⟨⟨_, rfl⟩, rfl⟩
      | ended alike delivers ends =>
        rw [delivers, Reply.Reader.received_nil, hv, ends]
        obtain ⟨method, maxBody, stage, buffer⟩ := u
        cases stage <;> exact ⟨rfl, rfl⟩

/-- **Cuts do not matter.**  Where every head that ends is within the limit, an exchange is over as
all the bytes together say, however they are cut into reads. -/
theorem receive_settled (link : Link) {r : Reply.Reader} {s : Stream} (hr : r.Placed)
    (hfit : (r.received s.delivered).HeadsFit) (now : Nat) :
    Settled link s.ending (r.received s.delivered).advance (receive true now link r s) := by
  refine receive_settled_of_follows hr (fun _ => rfl) now ?_
  intro pieces rest _ hdelivered
  rw [hdelivered, ← Reply.Reader.received_received] at hfit ⊢
  exact Reply.Reader.advance_received (hr.received pieces.flatten) hfit

end Exchange

namespace Link

/-- Once the request has been written and flushed, the reply is read. -/
theorem send_of_written {patient : Bool} {now : Nat} {link : Link} {request : Outgoing}
    {s t : Stream} {bytes : Bytes} (hencode : request.encode? link.viaProxy = .ok bytes)
    (hwrite : Exchange.writeAll bytes s = ([], none, t)) (hflush : t.flushError = none) :
    link.send patient now request s =
      Exchange.receive patient now { link with reusable := false }
        (.start request.method link.maxBody link.buffer) t.flush.2 := by
  have hbegin : link.begin request =
      ({ link with reusable := false }, .ok (.sending request.method bytes)) := by
    rw [begin, hencode]
    rfl
  have hflushed : t.flush = (none, t.flush.2) := by
    rw [Stream.flush, hflush]
  rw [send, hbegin]
  simp only [Exchange.run, hwrite]
  rw [hflushed]

/-- **A reply that is written is found.**  The request has been written and flushed, and what is at
hand and what still arrives are a reply and, where the end of its body is marked, any bytes behind it.
Then, however the bytes are cut into reads, the exchange ends with that reply: version, status, reason
and fields of the final head, and the body.  The bytes behind it are left, some in the buffer and the
others unread, and the link can be used again as the head says if none has come yet. -/
theorem send_finds {now : Nat} {link : Link} {request : Outgoing} {s t : Stream}
    {bytes surplus : Bytes} (w : Reply.Written request.method)
    (hencode : request.encode? link.viaProxy = .ok bytes)
    (hwrite : Exchange.writeAll bytes s = ([], none, t)) (hflush : t.flushError = none)
    (hbody : w.body.length ≤ link.maxBody) (hmax : link.maxBody < Numeral.lengthBound)
    (hend : w.delimited = false → surplus = [] ∧ t.flush.2.ending = .ended)
    (harrive : link.buffer ++ t.flush.2.delivered = w.bytes ++ surplus) :
    let p := link.send true now request s
    p.outcome = .finished (.ok
        { status := w.head.status, reason := w.head.reason, version := w.head.version,
          headers := w.head.headers, body := w.body }) ∧
      (w.delimited = true → p.link.buffer ++ p.stream.delivered = surplus) ∧
      (w.delimited = false → p.link.buffer = []) ∧
      (p.link.reusable = true ↔
        w.delimited = true ∧ w.head.asksToClose = false ∧ w.head.version = "HTTP/1.1" ∧
          w.head.status ≠ 101 ∧ p.link.buffer = []) := by
  intro p
  have hp : p = _ := send_of_written hencode hwrite hflush
  have hstart : (Reply.Reader.start request.method link.maxBody link.buffer).received
      t.flush.2.delivered = .start request.method link.maxBody (w.bytes ++ surplus) := by
    show Reply.Reader.start request.method link.maxBody (link.buffer ++ _) = _
    rw [harrive]
  have hsettled := Exchange.receive_settled { link with reusable := false }
    (Reply.Reader.placed_start request.method link.maxBody link.buffer)
    (by rw [hstart]; exact Reply.Reader.headsFit_written w link.maxBody surplus) now
  rw [← hp, hstart] at hsettled
  cases hdelimited : w.delimited with
  | true =>
    rw [Reply.Reader.advance_written w hdelimited hbody hmax] at hsettled
    obtain ⟨rest, houtcome, hlink, hrest⟩ := hsettled
    refine ⟨houtcome, fun _ => ?_, fun h => absurd h.symm Bool.false_ne_true, ?_⟩
    · rw [hlink]
      exact hrest
    · rw [hlink]
      simp [Exchange.leavesReusable, and_assoc]
  | false =>
    obtain ⟨rfl, hending⟩ := hend hdelimited
    obtain ⟨r, hstage, hbuffer, hadvance⟩ :=
      Reply.Reader.advance_written_untilEnd w hdelimited hbody
    rw [List.append_nil, hadvance, hending] at hsettled
    simp only [Exchange.Settled, hstage, hbuffer] at hsettled
    obtain ⟨houtcome, hlink⟩ := hsettled
    refine ⟨houtcome, fun h => absurd h Bool.false_ne_true, fun _ => ?_, ?_⟩
    · rw [hlink]
    · rw [hlink]
      simp

/-- A body of one chunk, with an extension and a trailer. -/
def chunkedNote : Reply.Chunked where
  chunks := [⟨[0x68, 0x69], by decide, ⟨['2'], .digit (by decide), some ['x'], by simp⟩⟩]
  last := ⟨['0'], .digit (by decide), none, by simp⟩
  trailers := [[0x54, 0x3A, 0x31]]
  nonempty := by simp
  plain := by simp

/-- A reply with that body, after an interim head. -/
def chunkedReply : Reply.Written .get where
  interims := [⟨100, "Continue", "HTTP/1.1", []⟩]
  interims_legible := by
    rw [List.forall_mem_singleton]
    exact ⟨by decide, List.all_iff_forall_prop.1 (by decide), by decide, by decide,
      List.all_iff_forall_prop.1 (by decide), by simp⟩
  interims_status := List.all_iff_forall_prop.1 (by decide)
  head := ⟨200, "OK", "HTTP/1.1", [⟨"Transfer-Encoding", "Chunked"⟩]⟩
  head_legible := by
    refine ⟨by decide, List.all_iff_forall_prop.1 (by decide), by decide, by decide,
      List.all_iff_forall_prop.1 (by decide), ?_⟩
    rw [List.forall_mem_singleton]
    exact ⟨List.all_iff_forall_prop.1 (by decide), by decide,
      List.all_iff_forall_prop.1 (by decide), by decide⟩
  head_status := by decide
  heads_fit := List.all_iff_forall_prop.1 (by decide)
  body := chunkedNote.data
  wire := chunkedNote.bytes
  delimited := true
  framed := .chunked chunkedNote (by simp [Reply.Bodiless]) ⟨"Chunked", by decide, by decide⟩

/-- The reply comes byte by byte, and one byte more. -/
theorem send_finds_chunkedReply :
    let request : Outgoing :=
      { url := { scheme := "http", host := some (.name "example.com") } }
    let link : Link :=
      { id := 0, destination := ⟨"http", "example.com", 80⟩, address := ⟨.ipv4 0, 80⟩ }
    let s : Stream :=
      { reads := ((chunkedReply.bytes ++ [0x48]).map fun b => [b]).map .data }
    let p := link.send true 0 request s
    p.outcome = .finished (.ok
        { status := 200, reason := "OK", version := "HTTP/1.1",
          headers := [⟨"Transfer-Encoding", "Chunked"⟩], body := [0x68, 0x69] }) ∧
      p.link.buffer ++ p.stream.delivered = [0x48] := by
  intro request link s
  have hencode : request.encode? link.viaProxy =
      .ok (Utf8.encode (request.headText false "example.com") ++ []) := rfl
  have hpieces : ∀ piece ∈ (chunkedReply.bytes ++ [0x48]).map fun b => [b], piece ≠ [] := by
    intro piece hpiece
    obtain ⟨b, -, rfl⟩ := List.mem_map.1 hpiece
    exact List.cons_ne_nil b []
  have hdelivered : ∀ t : Stream, t.reads = s.reads → t.delivered = chunkedReply.bytes ++ [0x48] := by
    intro t ht
    rw [Stream.delivered, ht, Stream.arrivals_pieces t.flushes hpieces, ← List.flatMap_def,
      List.flatMap_singleton']
  have hfinds := @send_finds 0 link request s _ _ [0x48] chunkedReply hencode
    (Exchange.writeAll_of_willing rfl _) rfl (by decide) (by decide)
    (fun h => absurd h.symm Bool.false_ne_true) (hdelivered _ rfl)
  exact ⟨hfinds.1, hfinds.2.1 rfl⟩

end Link

end HttpExchange
