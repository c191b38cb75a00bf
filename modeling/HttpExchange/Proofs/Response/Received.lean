import HttpExchange.Proofs.Head.Form
import HttpExchange.Proofs.Header
import HttpExchange.Proofs.Link.Receive
import HttpExchange.Response.Wire

/-!
# What a server writes, a client reads

The server writes a response as a head and the segments of its body, the client reads a reply from
bytes that come in pieces.  The two agree on every response that can stand on the wire at all:

* `Response.Sendable` — which these are;
* `sentHeaders_withoutBody` — the response to `HEAD` has the fields of the full one;
* `replyHead` / `headBytes_eq` — the head as the client will have it, and that it is what is written;
* `framed_foundBody` — the end of the body is always marked;
* `Link.send_receives` — hence a client has that response, however the bytes are cut.
-/

namespace HttpExchange

/-! ### Token bytes as characters -/

namespace Head

theorem toNat_ge_of_isTokenByte {b : UInt8} (h : isTokenByte b = true) : 0x21 ≤ b.toNat := by
  simp only [isTokenByte, Bool.or_eq_true, Bool.and_eq_true, decide_eq_true_eq,
    List.contains_iff_mem] at h
  rcases h with ((⟨h, -⟩ | ⟨h, -⟩) | ⟨h, -⟩) | h
  · exact Nat.le_trans (by decide) (UInt8.le_iff_toNat_le.1 h)
  · exact Nat.le_trans (by decide) (UInt8.le_iff_toNat_le.1 h)
  · exact Nat.le_trans (by decide) (UInt8.le_iff_toNat_le.1 h)
  · fin_cases h <;> decide

/-- The characters of a token stand for its bytes. -/
theorem exists_isTokenByte_of_mem {s : String}
    (h : ∀ b ∈ Utf8.encode s, isTokenByte b = true) {c : Char} (hc : c ∈ s.toList) :
    ∃ b, isTokenByte b = true ∧ c = Utf8.charOf b := by
  have hascii : s = Utf8.ascii (Utf8.encode s) := by
    rw [← Utf8.decode_eq_ascii fun b hb => toNat_le_of_isTokenByte (h b hb), Utf8.decode_encode]
  rw [hascii, Utf8.ascii, String.toList_ofList, List.mem_map] at hc
  obtain ⟨b, hb, rfl⟩ := hc
  exact ⟨b, h b hb, rfl⟩

theorem charOf_ne {b : UInt8} (h : isTokenByte b = true) {c : Char}
    (hc : isTokenByte (UInt8.ofNat c.toNat) = false) : Utf8.charOf b ≠ c := by
  rintro rfl
  rw [Utf8.toNat_charOf, UInt8.ofNat_toNat, h] at hc
  cases hc

theorem not_isBlank_charOf {b : UInt8} (h : isTokenByte b = true) :
    Blank.isBlank (Utf8.charOf b) = false := by
  have hlow := toNat_ge_of_isTokenByte h
  have hhigh := toNat_le_of_isTokenByte h
  simp only [Blank.isBlank, Utf8.toNat_charOf, Bool.or_eq_false_iff, Bool.and_eq_false_iff,
    decide_eq_false_iff_not, beq_eq_false_iff_ne]
  omega

end Head

namespace Response

/-- A response that a client can read back: the names of its fields are tokens, their values stay on
their line and have no blanks at their ends, none of them says that the body comes in chunks, and the
length of the body is declared as it is or not at all. -/
structure Sendable (r : Response) : Prop where
  names : ∀ h ∈ r.headers, h.name ≠ "" ∧ ∀ b ∈ Utf8.encode h.name, Head.isTokenByte b = true
  values : ∀ h ∈ r.headers,
    (∀ c ∈ h.value.toList, c ≠ '\r' ∧ c ≠ '\n') ∧ Blank.trim h.value = h.value
  unchunked : ∀ value ∈ r.headers.every "Transfer-Encoding",
    ¬"chunked".toList <:+: value.toList.map Char.toLower
  length : ∀ value, r.headers.first? "Content-Length" = some value →
    value = Numeral.decimal r.bodyLength

/-- The length of the body, where it has still to be declared. -/
def lengthField (r : Response) : Headers :=
  if r.needsLength then [⟨"Content-Length", Numeral.decimal r.bodyLength⟩] else []

/-- The wish to close, where the response does not speak of its connection. -/
def closeField (r : Response) : Headers :=
  if r.headers.has "Connection" then [] else [⟨"Connection", "close"⟩]

/-- The fields of a response as they are written. -/
def sentHeaders (r : Response) : Headers := r.headers ++ (r.lengthField ++ r.closeField)

theorem needsLength_iff (r : Response) : r.needsLength = true ↔
    r.headers.first? "Content-Length" = none ∧ r.status ∉ [.noContent, .notModified] := by
  rw [needsLength, Bool.and_eq_true, Bool.not_eq_true', Bool.not_eq_true', Headers.has_eq_false_iff]
  cases r.status <;> simp [Status.forbidsBody]

theorem sentHeaders_eq (r : Response) : r.sentHeaders = r.headers ++
    ((if r.headers.first? "Content-Length" = none ∧ r.status ∉ [.noContent, .notModified]
        then [⟨"Content-Length", Numeral.decimal r.body.flatten.length⟩] else []) ++
     (if r.headers.first? "Connection" = none then [⟨"Connection", "close"⟩] else [])) := by
  rw [sentHeaders, lengthField, closeField, Headers.ite_has]
  simp only [needsLength_iff]
  rfl

/-! ### The response to `HEAD` -/

theorem withoutBody_of_needsLength {r : Response} (h : r.needsLength = true) :
    r.withoutBody =
      { r with headers := r.headers ++ [⟨"Content-Length", Numeral.decimal r.bodyLength⟩],
               body := [] } := by
  have hhas : r.headers.has "Content-Length" = false := by
    rw [needsLength, Bool.and_eq_true, Bool.not_eq_true'] at h
    exact h.1
  rw [withoutBody, if_pos h, setHeader, Headers.replaced, Headers.without_eq_self hhas,
    Headers.added]

theorem withoutBody_of_not_needsLength {r : Response} (h : r.needsLength = false) :
    r.withoutBody = { r with body := [] } := by
  rw [withoutBody, if_neg (Bool.eq_false_iff.1 h)]

@[simp]
theorem status_withoutBody (r : Response) : r.withoutBody.status = r.status := by
  rw [withoutBody]
  split <;> rfl

@[simp]
theorem body_withoutBody (r : Response) : r.withoutBody.body = [] := by
  rw [withoutBody]

/-- **The response to `HEAD` has the fields of the full one.** -/
theorem sentHeaders_withoutBody (r : Response) : r.withoutBody.sentHeaders = r.sentHeaders := by
  cases h : r.needsLength with
  | true =>
    have hlength : Headers.has [⟨"Content-Length", Numeral.decimal r.bodyLength⟩]
        "Content-Length" = true := by
      rw [Headers.has, Headers.first?_singleton_self]
      rfl
    have hconnection : Headers.has [⟨"Content-Length", Numeral.decimal r.bodyLength⟩]
        "Connection" = false := by
      rw [Headers.has_eq_false_iff, Headers.first?_singleton_of_ne (by decide)]
    have hdeclared : r.withoutBody.needsLength = false := by
      rw [withoutBody_of_needsLength h, needsLength, Headers.has_append, hlength]
      simp
    rw [sentHeaders, lengthField, if_neg (Bool.eq_false_iff.1 hdeclared), closeField,
      withoutBody_of_needsLength h, Headers.has_append, hconnection, Bool.or_false,
      sentHeaders, lengthField, if_pos h, closeField, List.append_assoc]
    rfl
  | false =>
    have hlength : { r with body := [] : Response }.needsLength = false := h
    rw [withoutBody_of_not_needsLength h, sentHeaders, lengthField, hlength, sentHeaders,
      lengthField, h]
    rfl

/-! ### The head -/

/-- The head of a response as a client has it. -/
def replyHead (r : Response) : Reply.Head :=
  { status := r.status.code, reason := r.status.reason, version := "HTTP/1.1",
    headers := r.sentHeaders }

theorem toList_fieldLine (h : Header) :
    (fieldLine h).toList = Reply.Head.closed (Reply.Head.fieldLine h) := by
  simp [fieldLine, Reply.Head.closed, Reply.Head.fieldLine]

theorem toList_join_fieldLine (hs : Headers) :
    (String.join (hs.map fieldLine)).toList =
      (hs.map Reply.Head.fieldLine).flatMap Reply.Head.closed := by
  simp only [String.toList_join, List.flatMap_map, toList_fieldLine]

/-- The head is a text of lines. -/
theorem toList_headText (r : Response) :
    r.headText.toList = r.replyHead.allLines.flatMap Reply.Head.closed ++ ['\r', '\n'] := by
  have hstatus : ("HTTP/1.1 " ++ Numeral.decimal r.status.code ++ " " ++ r.status.reason ++
      "\r\n").toList = Reply.Head.closed r.replyHead.statusLine := by
    simp [Reply.Head.closed, Reply.Head.statusLine, replyHead]
  have hlength : (if r.needsLength then
      fieldLine ⟨"Content-Length", Numeral.decimal r.bodyLength⟩ else "") =
        String.join (r.lengthField.map fieldLine) := by
    rw [lengthField]
    split <;> simp
  have hclose : (if r.headers.has "Connection" then "" else fieldLine ⟨"Connection", "close"⟩) =
      String.join (r.closeField.map fieldLine) := by
    rw [closeField]
    split <;> simp
  delta headText
  rw [hlength, hclose]
  simp only [String.toList_append, toList_join_fieldLine] at hstatus ⊢
  rw [hstatus]
  simp [Reply.Head.allLines, replyHead, sentHeaders]

/-- **The head that is written is the head a client has.** -/
theorem headBytes_eq (r : Response) : r.headBytes = r.replyHead.bytes := by
  rw [headBytes, Reply.Head.bytes, ← toList_headText, String.ofList_toList]

theorem headBytes_withoutBody (r : Response) : r.withoutBody.headBytes = r.headBytes := by
  rw [headBytes_eq, headBytes_eq, replyHead, replyHead, sentHeaders_withoutBody, status_withoutBody]

theorem legible_header {h : Header}
    (hname : ∀ b ∈ Utf8.encode h.name, Head.isTokenByte b = true)
    (hvalue : ∀ c ∈ h.value.toList, c ≠ '\r' ∧ c ≠ '\n') (htrim : Blank.trim h.value = h.value) :
    h.Legible where
  name_plain c hc := by
    obtain ⟨b, hb, rfl⟩ := Head.exists_isTokenByte_of_mem hname hc
    exact ⟨Head.charOf_ne hb (by decide), Head.charOf_ne hb (by decide)⟩
  name_trimmed := by
    apply Blank.trim_eq_self
    intro c hc
    obtain ⟨b, hb, rfl⟩ := Head.exists_isTokenByte_of_mem hname hc
    exact Head.not_isBlank_charOf hb
  value_plain c hc := (hvalue c hc).1
  value_trimmed := htrim

theorem Sendable.legible {r : Response} (hr : r.Sendable) : ∀ h ∈ r.headers, h.Legible := by
  intro h hown
  obtain ⟨hvalue, htrim⟩ := hr.values h hown
  exact legible_header (hr.names h hown).2 hvalue htrim

/-- The fields that are added can be read back. -/
theorem legible_sentHeaders {r : Response} (hr : ∀ h ∈ r.headers, h.Legible) :
    ∀ h ∈ r.sentHeaders, h.Legible := by
  have hlength : (Header.mk "Content-Length" (Numeral.decimal r.bodyLength)).Legible := by
    apply legible_header
    · show ∀ b ∈ Utf8.encode "Content-Length", Head.isTokenByte b = true
      exact List.all_eq_true.1 (by decide)
    · intro c hc
      have hdigit := Numeral.isDigit_of_mem_decimal hc
      exact ⟨Reply.Head.isDigit_ne hdigit (by decide), Reply.Head.isDigit_ne hdigit (by decide)⟩
    · exact Blank.trim_decimal _
  have hclose : (Header.mk "Connection" "close").Legible := by
    apply legible_header
    · exact List.all_eq_true.1 (by decide)
    · exact List.all_iff_forall_prop.1 (by decide)
    · decide
  intro h hmem
  rw [sentHeaders, List.mem_append, List.mem_append] at hmem
  rcases hmem with hown | hmem | hmem
  · exact hr h hown
  · rw [lengthField] at hmem
    split at hmem
    · rw [List.mem_singleton.1 hmem]
      exact hlength
    · cases hmem
  · rw [closeField] at hmem
    split at hmem
    · cases hmem
    · rw [List.mem_singleton.1 hmem]
      exact hclose

theorem legible_replyHead {r : Response} (hr : ∀ h ∈ r.headers, h.Legible) :
    r.replyHead.Legible where
  version_prefix := by
    show "HTTP/1.".toList <+: "HTTP/1.1".toList
    decide
  version_plain := by
    show ∀ c ∈ "HTTP/1.1".toList, c ≠ ' ' ∧ c ≠ '\r'
    exact List.all_iff_forall_prop.1 (by decide)
  status_ge := by
    show 100 ≤ r.status.code
    cases r.status <;> decide
  status_lt := by
    show r.status.code < 1000
    cases r.status <;> decide
  reason_plain := by
    show ∀ c ∈ r.status.reason.toList, c ≠ '\r'
    cases r.status <;> exact List.all_iff_forall_prop.1 (by decide)
  headers := legible_sentHeaders hr

/-! ### The body -/

/-- What is written behind the head. -/
theorem wire_eq (r : Response) :
    r.wire = r.headBytes ++ if r.status.forbidsBody then [] else r.bodyBytes := by
  have hfilter : (r.body.filter (!·.isEmpty)).flatten = r.body.flatten :=
    List.flatten_filter_not_isEmpty
  rw [wire, buffers, List.flatten_cons, bodyBytes]
  split
  · rfl
  · rw [hfilter]

/-- Whether a client expects no body. -/
theorem bodiless_replyHead_iff (method : Method) (r : Response) :
    Reply.Bodiless method r.replyHead ↔ method = .head ∨ r.status.forbidsBody = true := by
  have hstatus : r.status.code = 204 ∨ r.status.code = 304 ↔ r.status.forbidsBody = true := by
    cases r.status <;> decide
  rw [Reply.Bodiless, ← hstatus]
  rfl

/-- The response that is written: to `HEAD` one without its body. -/
def answering (method : Method) (r : Response) : Response :=
  if method = .head then r.withoutBody else r

/-- The body that a client finds. -/
def foundBody (method : Method) (r : Response) : Bytes :=
  if method = .head ∨ r.status.forbidsBody = true then [] else r.bodyBytes

theorem foundBody_eq (method : Method) (r : Response) : r.foundBody method =
    if method = .head ∨ r.status ∈ [.noContent, .notModified] then [] else r.body.flatten := by
  have hstatus : r.status.forbidsBody = true ↔ r.status ∈ [.noContent, .notModified] := by
    cases r.status <;> decide
  rw [foundBody]
  simp only [hstatus]
  rfl

theorem wire_answering (method : Method) (r : Response) :
    (r.answering method).wire = r.replyHead.bytes ++ r.foundBody method := by
  have hbody : r.withoutBody.bodyBytes = [] := by
    rw [bodyBytes, body_withoutBody, List.flatten_nil]
  rw [answering, foundBody]
  split
  · next hhead =>
    rw [wire_eq, headBytes_withoutBody, hbody, ite_self, if_pos (.inl hhead), headBytes_eq]
  · next hhead =>
    rw [wire_eq, headBytes_eq]
    simp only [hhead, false_or]

/-- The first field of the response's own decides. -/
theorem first?_sentHeaders {r : Response} {name : String}
    (hlength : Ascii.eqIgnoreCase "Content-Length" name = false)
    (hclose : Ascii.eqIgnoreCase "Connection" name = false) :
    r.sentHeaders.first? name = r.headers.first? name := by
  have hfield : r.lengthField.first? name = none := by
    rw [lengthField]
    split
    · exact Headers.first?_singleton_of_ne hlength _
    · rfl
  have hclosing : r.closeField.first? name = none := by
    rw [closeField]
    split
    · rfl
    · exact Headers.first?_singleton_of_ne hclose _
  rw [sentHeaders, Headers.first?_append, Headers.first?_append, hfield, hclosing]
  simp

theorem first?_length_sentHeaders {r : Response} (hr : r.Sendable)
    (hstatus : ¬r.status.forbidsBody = true) :
    r.sentHeaders.first? "Content-Length" = some (Numeral.decimal r.bodyLength) := by
  rw [sentHeaders, Headers.first?_append, Headers.first?_append]
  cases hfirst : r.headers.first? "Content-Length" with
  | some value =>
    rw [hr.length value hfirst]
    rfl
  | none =>
    have hneeds : r.needsLength = true := by
      rw [needsLength, Headers.has_eq_false_iff.2 hfirst, Bool.eq_false_iff.2 hstatus]
      rfl
    rw [lengthField, if_pos hneeds, Headers.first?_singleton_self]
    rfl

/-- A client is asked to close unless the response speaks of its connection and says otherwise. -/
theorem asksToClose_replyHead (r : Response) :
    r.replyHead.asksToClose = false ↔
      ∃ value, r.headers.first? "Connection" = some value ∧
        Ascii.eqIgnoreCase value "close" = false := by
  have hlength : r.lengthField.first? "Connection" = none := by
    rw [lengthField]
    split
    · exact Headers.first?_singleton_of_ne (by decide) _
    · rfl
  have hfirst : r.replyHead.headers.first? "Connection" =
      (r.headers.first? "Connection").or (r.closeField.first? "Connection") := by
    show r.sentHeaders.first? "Connection" = _
    rw [sentHeaders, Headers.first?_append, Headers.first?_append, hlength]
    rfl
  rw [Reply.Head.asksToClose, hfirst]
  cases hown : r.headers.first? "Connection" with
  | some value => simp
  | none =>
    rw [closeField, Headers.has_eq_false_iff.2 hown]
    simp [Headers.first?_singleton_self, Ascii.eqIgnoreCase_refl]

/-- **A response is a reply as it is sent.**  The end of its body is always marked. -/
theorem framed_foundBody {method : Method} {r : Response} (hr : r.Sendable) :
    Reply.Framed method r.replyHead (r.foundBody method) (r.foundBody method) true := by
  rw [foundBody]
  split
  · next hbodiless => exact .bodiless ((bodiless_replyHead_iff method r).2 hbodiless)
  · next hbodiless =>
    have hchunked : ¬r.replyHead.NamesChunked := by
      rintro ⟨value, hfirst, hinfix⟩
      have hown : r.headers.first? "Transfer-Encoding" = some value := by
        rw [← first?_sentHeaders (by decide) (by decide)]
        exact hfirst
      exact hr.unchunked value (Headers.mem_every_of_first? hown) hinfix
    exact .counted r.bodyBytes (mt (bodiless_replyHead_iff method r).1 hbodiless) hchunked
      (first?_length_sentHeaders hr fun hstatus => hbodiless (.inr hstatus))

/-- The response as a reply to a method. -/
def written (method : Method) {r : Response} (hr : r.Sendable)
    (hhead : r.headBytes.length ≤ Reply.maxHead) : Reply.Written method where
  interims := []
  interims_legible := by simp
  interims_status := by simp
  head := r.replyHead
  head_legible := legible_replyHead hr.legible
  head_status := by
    show r.status.code = 101 ∨ 200 ≤ r.status.code
    cases r.status <;> decide
  heads_fit := by
    rw [List.forall_mem_singleton, ← headBytes_eq]
    exact hhead
  body := r.foundBody method
  wire := r.foundBody method
  delimited := true
  framed := framed_foundBody hr

theorem bytes_written (method : Method) {r : Response} (hr : r.Sendable)
    (hhead : r.headBytes.length ≤ Reply.maxHead) :
    (written method hr hhead).bytes = (r.answering method).wire := by
  rw [wire_answering, Reply.Written.bytes]
  simp only [written, List.flatMap_nil, List.nil_append]

theorem length_foundBody_le (method : Method) (r : Response) :
    (r.foundBody method).length ≤ r.bodyLength := by
  rw [foundBody]
  split
  · exact Nat.zero_le _
  · exact Nat.le_refl _

end Response

namespace Link

/-- **A response that is written is received.**  The request has been written and flushed, and what
is at hand and what still arrives are the bytes of the response to its method.  Then, however these
are cut into reads, the exchange ends with that response: its status number and reason, its own
fields in order, its length unless it declares one or may have no body, `Connection: close` unless it
speaks of its connection, and its whole body, which is empty in reply to `HEAD` and with the statuses
204 and 304.  No byte is left over, and the link can be used again exactly if the response speaks of
its connection and does not ask to close it. -/
theorem send_receives {now : Nat} {link : Link} {request : Outgoing} {s t : Stream}
    {bytes : Bytes} {r : Response} (hr : r.Sendable)
    (hencode : request.encode? link.viaProxy = .ok bytes)
    (hwrite : Exchange.writeAll bytes s = ([], none, t)) (hflush : t.flushError = none)
    (hbody : r.bodyLength ≤ link.maxBody) (hmax : link.maxBody < Numeral.lengthBound)
    (hhead : r.headBytes.length ≤ Reply.maxHead)
    (harrive : link.buffer ++ t.flush.2.delivered = (r.answering request.method).wire) :
    let p := link.send true now request s
    p.outcome = .finished (.ok
        { status := r.status.code
          reason := r.status.reason
          version := "HTTP/1.1"
          headers := r.headers ++
            ((if r.headers.first? "Content-Length" = none ∧ r.status ∉ [.noContent, .notModified]
                then [⟨"Content-Length", Numeral.decimal r.body.flatten.length⟩] else []) ++
             (if r.headers.first? "Connection" = none then [⟨"Connection", "close"⟩] else []))
          body :=
            if request.method = .head ∨ r.status ∈ [.noContent, .notModified] then []
            else r.body.flatten }) ∧
      p.link.buffer = [] ∧ p.stream.delivered = [] ∧
      (p.link.reusable = true ↔
        ∃ value, r.headers.first? "Connection" = some value ∧
          Ascii.eqIgnoreCase value "close" = false) := by
  have hwire : link.buffer ++ t.flush.2.delivered =
      (Response.written request.method hr hhead).bytes ++ [] := by
    rw [harrive, List.append_nil, Response.bytes_written]
  have hfinds := @send_finds now link request s t bytes [] (Response.written request.method hr hhead)
    hencode hwrite hflush ((Response.length_foundBody_le request.method r).trans hbody) hmax
    (fun h => absurd h.symm Bool.false_ne_true) hwire
  obtain ⟨houtcome, hrest, -, hreusable⟩ := hfinds
  obtain ⟨hbuffer, hdelivered⟩ := List.append_eq_nil_iff.1 (hrest rfl)
  have hhead' : (Response.written request.method hr hhead).head = r.replyHead := rfl
  intro p
  refine ⟨?_, hbuffer, hdelivered, ?_⟩
  · rw [houtcome, hhead', ← Response.sentHeaders_eq, ← Response.foundBody_eq]
    rfl
  · rw [hreusable, hhead', Response.asksToClose_replyHead]
    have hcode : r.replyHead.status ≠ 101 := by
      show r.status.code ≠ 101
      cases r.status <;> decide
    constructor
    · intro h
      exact h.2.1
    · intro h
      exact ⟨rfl, h, rfl, hcode, hbuffer⟩

/-- A response in two segments and an empty one, which keeps its connection. -/
def segmentedNote : Response :=
  { headers := [⟨"X-Note", "für"⟩, ⟨"Connection", "keep-alive"⟩],
    body := [[0x68], [], [0x69]] }

/-- The response comes byte by byte. -/
theorem send_receives_segmentedNote :
    let request : Outgoing :=
      { url := { scheme := "http", host := some (.name "example.com") } }
    let link : Link :=
      { id := 0, destination := ⟨"http", "example.com", 80⟩, address := ⟨.ipv4 0, 80⟩ }
    let s : Stream := { reads := (segmentedNote.wire.map fun b => [b]).map .data }
    let p := link.send true 0 request s
    segmentedNote.Sendable ∧
      p.outcome = .finished (.ok
        { status := 200, reason := "OK", version := "HTTP/1.1",
          headers := [⟨"X-Note", "für"⟩, ⟨"Connection", "keep-alive"⟩, ⟨"Content-Length", "2"⟩],
          body := [0x68, 0x69] }) ∧
      p.link.reusable = true := by
  intro request link s
  have hr : segmentedNote.Sendable := by
    refine ⟨?_, ?_, by decide, ?_⟩
    · rw [segmentedNote, List.forall_mem_cons, List.forall_mem_singleton]
      exact ⟨⟨by decide, List.all_eq_true.1 (by decide)⟩,
        ⟨by decide, List.all_eq_true.1 (by decide)⟩⟩
    · rw [segmentedNote, List.forall_mem_cons, List.forall_mem_singleton]
      exact ⟨⟨List.all_iff_forall_prop.1 (by decide), by decide⟩,
        ⟨List.all_iff_forall_prop.1 (by decide), by decide⟩⟩
    · intro value hvalue
      cases hvalue
  have hencode : request.encode? link.viaProxy =
      .ok (Utf8.encode (request.headText false "example.com") ++ []) := rfl
  have hpieces : ∀ piece ∈ segmentedNote.wire.map fun b => [b], piece ≠ [] := by
    intro piece hpiece
    obtain ⟨b, -, rfl⟩ := List.mem_map.1 hpiece
    exact List.cons_ne_nil b []
  have hanswering : segmentedNote.answering request.method = segmentedNote := if_neg (by decide)
  have hdelivered : ∀ t : Stream, t.reads = s.reads →
      link.buffer ++ t.delivered = (segmentedNote.answering request.method).wire := by
    intro t ht
    rw [show link.buffer = [] from rfl, List.nil_append, Stream.delivered, ht,
      Stream.arrivals_pieces t.flushes hpieces, ← List.flatMap_def, List.flatMap_singleton',
      hanswering]
  have hreceives := @send_receives 0 link request s _ _ segmentedNote hr hencode
    (Exchange.writeAll_of_willing rfl _) rfl (by decide) (by decide) (by decide)
    (hdelivered _ rfl)
  obtain ⟨houtcome, -, -, hreusable⟩ := hreceives
  intro p
  refine ⟨hr, houtcome.trans ?_, hreusable.2 ⟨"keep-alive", by decide, by decide⟩⟩
  exact congrArg (fun reply => Exchange.Outcome.finished (.ok reply)) (by decide)

end Link

end HttpExchange
