import HttpExchange.Proofs.Link.BodyLimit
import HttpExchange.Proofs.Link.HeadLimit
import HttpExchange.Proofs.Request.Length
import HttpExchange.Session

/-!
# The length of a body, read on both sides

A server reads the length that a request declares for its body, a client the length that a reply
declares, and each has a reader of its own.  Between them they have to find the same length in the
same text, or else one of them takes for a body what the other has not written as one.

* `Reply.lengthOf?_of_head?_ne` — they do, where no plus sign stands in front; a client passes it
  over;
* `Reader.advance_of_length` — what the bytes behind a head come to that declares a length;
* `Exchange.GoesBy`, `Link.send_goesBy` — exchanges go by the length that a client reads;
* `Link.send_reads_length` — a text that is written is read alike on both sides;
* `Link.send_reads_length_fails` — one with a plus sign in front is not.
-/

namespace HttpExchange

namespace Reply

/-! ### The two readers -/

/-- The length that a value denotes to a client. -/
def lengthOf? (value : String) : Option Nat :=
  Numeral.bounded? 10 Numeral.lengthBound (Blank.trim value).toList

variable {value : String}

theorem lengthOf?_trim (value : String) : lengthOf? (Blank.trim value) = lengthOf? value := by
  rw [lengthOf?, lengthOf?, Blank.trim_trim]

theorem toOption_lengthOf (value : String) : (Request.lengthOf value).toOption =
    (Numeral.digits? 10 (Blank.trim value).toList).filter (· < Numeral.lengthBound) := by
  rw [Request.lengthOf]
  cases Numeral.digits? 10 (Blank.trim value).toList with
  | none => rfl
  | some n =>
    rw [Option.filter_some]
    by_cases hn : n < Numeral.lengthBound <;> simp [hn, Except.toOption]

/-- **Without a plus sign in front the two readers agree.** -/
theorem lengthOf?_of_head?_ne (h : (Blank.trim value).toList.head? ≠ some '+') :
    lengthOf? value = (Request.lengthOf value).toOption := by
  rw [lengthOf?, Numeral.bounded?, Numeral.signed?_eq_digits? h, toOption_lengthOf]

/-- **A client passes over a plus sign in front.** -/
theorem lengthOf?_of_plus {digits : List Char} (h : (Blank.trim value).toList = '+' :: digits) :
    lengthOf? value = (Numeral.digits? 10 digits).filter (· < Numeral.lengthBound) := by
  rw [lengthOf?, h, Numeral.bounded?, Numeral.signed?]

/-- A server passes over no sign at all. -/
theorem lengthOf_of_plus {digits : List Char} (h : (Blank.trim value).toList = '+' :: digits) :
    Request.lengthOf value = .error .notDigits := by
  have hnone : Numeral.digits? 10 (Blank.trim value).toList = none := by
    rw [Option.eq_none_iff_forall_ne_some]
    intro n hn
    rw [Numeral.digits?_ten_eq_some_iff, h] at hn
    exact absurd (hn.2.1 '+' List.mem_cons_self) (by decide)
  rw [Request.lengthOf, hnone]

/-! ### Behind a head that declares a length -/

variable {head : Head} {rest : Bytes}

theorem Reader.advance_of_length {r : Reader} (hstep : r.step = r.afterHead head rest)
    (hfinal : head.isInterim = false) (hbody : ¬Bodiless r.method head)
    (hplain : ¬head.NamesChunked) (hvalue : head.headers.first? "Content-Length" = some value) :
    r.advance = match lengthOf? value with
      | none => .failed (.badReply (.length value)) rest
      | some length =>
        if r.maxBody < length then .failed (.badReply (.bodyTooLong r.maxBody)) rest
        else if rest.length < length then .wants (r.goto (.counted head length) rest)
        else .complete head (rest.take length) true (rest.drop length) := by
  rw [afterHead, if_neg (Bool.eq_false_iff.1 hfinal), if_neg (mt bodiless_iff.2 hbody),
    if_neg (mt (isChunked_iff head).1 hplain)] at hstep
  simp only [hvalue] at hstep
  rw [← lengthOf?] at hstep
  cases hlength : lengthOf? value with
  | none =>
    simp only [hlength] at hstep
    exact advance_of_stop hstep
  | some length =>
    simp only [hlength] at hstep ⊢
    by_cases hover : r.maxBody < length
    · rw [if_pos hover] at hstep ⊢
      exact advance_of_stop hstep
    · rw [if_neg hover] at hstep ⊢
      rw [advance_of_again hstep]
      by_cases hshort : rest.length < length
      · rw [if_pos hshort]
        exact advance_of_stop (if_pos hshort)
      · rw [if_neg hshort]
        exact advance_of_stop (if_neg hshort)

/-- A head that is written and short enough is within the limit, whatever follows it. -/
theorem headsWithin_bytes (hl : head.Plain) (hfinal : head.isInterim = false)
    (hfit : head.bytes.length ≤ maxHead) (rest : Bytes) : HeadsWithin (head.bytes ++ rest) := by
  intro front place hbegins hends
  have hfind := Head.find?_bytes hl rest
  have hreads : Head.ofBytes ((head.bytes ++ rest).take (head.bytes.length - 4 + 4)) =
      .ok head.trimmed := by
    rw [head.take_bytes]
    exact Head.ofBytes_bytes_trimmed hl
  rw [hbegins.eq_of_final hfind hreads hfinal, hfind] at hends
  have hlong := head.four_le_length_bytes
  have hplace := Option.some.inj hends
  omega

end Reply

/-! ### Exchanges -/

/-- An exchange goes by a length.  Beyond the limit it is refused.  Within it so many bytes behind
the head are the body, and those behind them are left; and where there are not so many, there is no
reply, but no fault is found with the bytes that have come. -/
structure Exchange.GoesBy (limit : Nat) (head : Reply.Head) (rest : Bytes) (length : Nat)
    (p : Progress) : Prop where
  refused : limit < length → p.outcome = .finished (.error (.badReply (.bodyTooLong limit)))
  taken : length ≤ limit → length ≤ rest.length →
    p.outcome = .finished (.ok (head.withBody (rest.take length))) ∧
      p.link.buffer ++ p.stream.delivered = rest.drop length
  short : length ≤ limit → rest.length < length → (∀ reply, p.outcome ≠ .finished (.ok reply)) ∧
    ∀ fault, p.outcome ≠ .finished (.error (.badReply fault))

/-- Who goes by a length has found no fault with it. -/
theorem Exchange.GoesBy.ne_length {limit : Nat} {head : Reply.Head} {rest : Bytes} {length : Nat}
    {p : Progress} (h : GoesBy limit head rest length p) {value : String} :
    p.outcome ≠ .finished (.error (.badReply (.length value))) := by
  rcases Nat.lt_or_ge limit length with hover | hle
  · simp [h.refused hover]
  · rcases Nat.lt_or_ge rest.length length with hshort | hlong
    · exact (h.short hle hshort).2 _
    · simp [(h.taken hle hlong).1]

namespace Link

variable {now : Nat} {link : Link} {request : Outgoing} {s t : Stream} {bytes rest : Bytes}
  {head : Reply.Head} {value : String}

section Declared

variable (hencode : request.encode? link.viaProxy = .ok bytes)
  (hwrite : Exchange.writeAll bytes s = ([], none, t)) (hflush : t.flushError = none)
  (hfit : Reply.HeadsWithin (link.buffer ++ t.flush.2.delivered))
  (hfollows : Reply.Follows (link.buffer ++ t.flush.2.delivered) head rest)
  (hbody : ¬Reply.Bodiless request.method head) (hplain : ¬head.NamesChunked)
  (hvalue : head.headers.first? "Content-Length" = some value)
include hencode hwrite hflush hfit hfollows hbody hplain hvalue

/-- **An exchange fails where no length is read.** -/
theorem send_refuses_length (hlength : Reply.lengthOf? value = none) :
    (link.send true now request s).outcome = .finished (.error (.badReply (.length value))) := by
  have hsettled := settled_of_written now hencode hwrite hflush hfit
  obtain ⟨front, hadvance, hstep⟩ :=
    Reply.Reader.advance_of_follows request.method link.maxBody hfollows
  rw [hadvance, Reply.Reader.advance_of_length hstep hfollows.isInterim_eq hbody hplain hvalue,
    hlength] at hsettled
  obtain ⟨left, houtcome, -⟩ := hsettled
  exact houtcome

/-- **Otherwise it goes by the length that is read.** -/
theorem send_goesBy {length : Nat} (hlength : Reply.lengthOf? value = some length) :
    Exchange.GoesBy link.maxBody head rest length (link.send true now request s) := by
  have hsettled := settled_of_written now hencode hwrite hflush hfit
  obtain ⟨front, hadvance, hstep⟩ :=
    Reply.Reader.advance_of_follows request.method link.maxBody hfollows
  rw [hadvance, Reply.Reader.advance_of_length hstep hfollows.isInterim_eq hbody hplain hvalue,
    hlength] at hsettled
  change Exchange.Settled _ _ (if link.maxBody < length then _ else _) _ at hsettled
  refine ⟨fun hover => ?_, fun hle hlong => ?_, fun hle hshort => ?_⟩
  · rw [if_pos hover] at hsettled
    obtain ⟨left, houtcome, -⟩ := hsettled
    exact houtcome
  · rw [if_neg (Nat.not_lt.2 hle), if_neg (Nat.not_lt.2 hlong)] at hsettled
    obtain ⟨left, houtcome, hlink, hrest⟩ := hsettled
    rw [hlink]
    exact ⟨houtcome, hrest⟩
  · rw [if_neg (Nat.not_lt.2 hle), if_pos hshort] at hsettled
    cases hending : t.flush.2.ending with
    | ended =>
      rw [hending] at hsettled
      simp [hsettled.1]
    | failed error =>
      rw [hending] at hsettled
      simp [hsettled.1]
    | never =>
      rw [hending] at hsettled
      obtain ⟨⟨wake, houtcome⟩, -⟩ := hsettled
      simp [houtcome]

end Declared

/-- **What is written is read alike on both sides.**  Let a request declare the length of its body
by some text, and let a far end write a reply that declares it by the same text, blanks and all,
with a head short enough and a body whose end nothing else marks.  The server accepts the text
exactly if, the blanks around it apart, it is a run of digits that denotes a possible length, and
answers 400 to every other where it needs a length.  Unless a plus sign stands in front, an exchange
goes by the same length, and finds fault with the text exactly if the server does.  With a plus sign
in front the server finds fault, and an exchange goes by the digits behind it. -/
theorem send_reads_length {received : Request}
    (hreceived : received.headers.first? "Content-Length" = some value)
    (hvalue : head.headers.first? "Content-Length" = some value)
    (hl : head.Plain) (hfinal : head.isInterim = false)
    (hlength : head.bytes.length ≤ Reply.maxHead)
    (hbody : ¬Reply.Bodiless request.method head) (hplain : ¬head.trimmed.NamesChunked)
    (hencode : request.encode? link.viaProxy = .ok bytes)
    (hwrite : Exchange.writeAll bytes s = ([], none, t)) (hflush : t.flushError = none)
    (harrive : link.buffer ++ t.flush.2.delivered = head.bytes ++ rest) :
    let p := link.send true now request s
    let text := (Blank.trim value).toList
    let bad := CallError.badReply (.length (Blank.trim value))
    (∀ length, received.contentLength? = some (.ok length) ↔
      text ≠ [] ∧ (∀ c ∈ text, c.isDigit = true) ∧ Nat.ofDigitChars 10 text 0 = length ∧
        length < Numeral.lengthBound) ∧
    (∀ fault limits front, received.contentLength? = some (.error fault) →
      received.method.expectsBody = true →
      Session.Phase.afterHead limits received front = .reject .badRequest) ∧
    (text.head? ≠ some '+' →
      (∀ length, received.contentLength? = some (.ok length) →
        Exchange.GoesBy link.maxBody head.trimmed rest length p) ∧
      (p.outcome = .finished (.error bad) ↔
        ∃ fault, received.contentLength? = some (.error fault))) ∧
    ∀ digits, text = '+' :: digits →
      received.contentLength? = some (.error .notDigits) ∧
      ∀ length, digits ≠ [] → (∀ c ∈ digits, c.isDigit = true) →
        Nat.ofDigitChars 10 digits 0 = length → length < Numeral.lengthBound →
        Exchange.GoesBy link.maxBody head.trimmed rest length p := by
  intro p text bad
  have hserver : received.contentLength? = some (Request.lengthOf value) := by
    rw [Request.contentLength?, hreceived]
    rfl
  have hfit := Reply.headsWithin_bytes hl hfinal hlength rest
  have hfollows := Reply.follows_bytes_trimmed hl hfinal rest
  have htrimmed : head.trimmed.headers.first? "Content-Length" = some (Blank.trim value) := by
    rw [Reply.Head.first?_trimmed, hvalue]
    rfl
  rw [← harrive] at hfit hfollows
  have hrefuses : Reply.lengthOf? value = none → p.outcome = .finished (.error bad) := by
    rw [← Reply.lengthOf?_trim]
    exact send_refuses_length hencode hwrite hflush hfit hfollows hbody hplain htrimmed
  have hgoesBy (length : Nat) : Reply.lengthOf? value = some length →
      Exchange.GoesBy link.maxBody head.trimmed rest length p := by
    rw [← Reply.lengthOf?_trim]
    exact send_goesBy hencode hwrite hflush hfit hfollows hbody hplain htrimmed
  refine ⟨fun length => ?_, fun fault limits front hfault hexpects => ?_, fun hplus => ?_,
    fun digits htext => ⟨?_, fun length hne hdigits hdenotes hsmall => ?_⟩⟩
  · rw [hserver, Option.some.injEq, Request.lengthOf_eq_ok_iff, Numeral.digits?_ten_eq_some_iff]
    simp only [and_assoc, text]
  · rw [Session.Phase.afterHead, if_pos hexpects, hfault]
  · rw [Reply.lengthOf?_of_head?_ne hplus] at hrefuses hgoesBy
    rw [hserver]
    cases hread : Request.lengthOf value with
    | ok length =>
      rw [hread] at hgoesBy
      refine ⟨fun other hother => ?_, fun hbad => ?_, fun hfault => ?_⟩
      · cases hother
        exact hgoesBy length rfl
      · exact absurd hbad (hgoesBy length rfl).ne_length
      · obtain ⟨fault, hfault⟩ := hfault
        cases hfault
    | error fault =>
      rw [hread] at hrefuses
      refine ⟨fun other hother => ?_, fun _ => ⟨fault, rfl⟩, fun _ => hrefuses rfl⟩
      cases hother
  · rw [hserver, Reply.lengthOf_of_plus htext]
  · have hread := (Numeral.digits?_ten_eq_some_iff digits length).2 ⟨hne, hdigits, hdenotes⟩
    apply hgoesBy
    rw [Reply.lengthOf?_of_plus htext, hread, Option.filter_some, if_pos (decide_eq_true hsmall)]

/-- A reply that declares the length of its body by a text. -/
def declaring (value : String) : Reply.Head :=
  { nineAhead with headers := [⟨"Content-Length", value⟩] }

theorem declaring_plain {value : String} (h : ∀ c ∈ value.toList, c ≠ '\r') :
    (declaring value).Plain := by
  have hnine := nineAhead_legible.plain
  refine ⟨hnine.version_prefix, hnine.version_plain, hnine.status_ge, hnine.status_lt,
    hnine.reason_plain, ?_⟩
  rw [declaring, List.forall_mem_singleton]
  have hfield := hnine.headers _ List.mem_cons_self
  exact ⟨hfield.name_plain, hfield.name_trimmed, h⟩

theorem declaring_unchunked {value : String} : ¬(declaring value).trimmed.NamesChunked := by
  have hnone : (declaring value).headers.first? "Transfer-Encoding" = none := by
    rw [declaring, Headers.first?, List.find?_cons_of_neg (by simp only [Header.named]; decide)]
    rfl
  rintro ⟨coding, hcoding, -⟩
  rw [Reply.Head.first?_trimmed, hnone] at hcoding
  cases hcoding

theorem declaring_bodied {value : String} :
    ¬Reply.Bodiless pageRequest.method (declaring value) := by
  simp [Reply.Bodiless, declaring, nineAhead, pageRequest]

/-- A request that declares the length of its body by the same text. -/
def declaringRequest (value : String) : Request :=
  { method := .post, headers := [⟨"Content-Length", value⟩] }

/-- What comes back on the small link when the far end writes such a reply and five bytes. -/
def helloBehind (value : String) : Exchange.Progress :=
  smallLink.send true 0 pageRequest
    { reads := [.data ((declaring value).bytes ++ Utf8.encode "hello")] }

/-- With a blank on each side a digit is a length on both sides. -/
theorem send_reads_length_padded :
    (declaringRequest " 5 ").contentLength? = some (.ok 5) ∧
      (helloBehind " 5 ").outcome = .finished
        (.ok ((declaring " 5 ").trimmed.withBody (Utf8.encode "hello"))) := by
  have hl : (declaring " 5 ").Plain := declaring_plain (List.all_iff_forall_prop.1 (by decide))
  have hwritten := Exchange.writeAll_of_willing
    (s := { reads := [.data ((declaring " 5 ").bytes ++ Utf8.encode "hello")] }) rfl
    (Utf8.encode (pageRequest.headText false "example.com") ++ [])
  have h := @send_reads_length 0 smallLink pageRequest _ _ _ (Utf8.encode "hello") _ _
    (declaringRequest " 5 ") rfl rfl hl (by decide) (by decide) declaring_bodied
    declaring_unchunked encode_pageRequest hwritten rfl rfl
  have hserver : (declaringRequest " 5 ").contentLength? = some (.ok 5) :=
    (h.1 5).2 ⟨by decide, List.all_iff_forall_prop.1 (by decide), by decide, by decide⟩
  have hgoes := (h.2.2.1 (by decide)).1 5 hserver
  exact ⟨hserver, (hgoes.taken (by decide) (by decide)).1⟩

/-- **With a plus sign in front it is one to the client alone.** -/
theorem send_reads_length_fails :
    Session.Phase.afterHead {} (declaringRequest "+5") [] = .reject .badRequest ∧
      (helloBehind "+5").outcome = .finished
        (.ok ((declaring "+5").trimmed.withBody (Utf8.encode "hello"))) := by
  have hl : (declaring "+5").Plain := declaring_plain (List.all_iff_forall_prop.1 (by decide))
  have hsigned : (Blank.trim "+5").toList = ['+', '5'] := by decide
  constructor
  · have hserver : (declaringRequest "+5").contentLength? = some (.error .notDigits) :=
      congrArg some (Reply.lengthOf_of_plus hsigned)
    rw [Session.Phase.afterHead, if_pos (by decide), hserver]
  · have hwritten := Exchange.writeAll_of_willing
      (s := { reads := [.data ((declaring "+5").bytes ++ Utf8.encode "hello")] }) rfl
      (Utf8.encode (pageRequest.headText false "example.com") ++ [])
    have hvalue : (declaring "+5").trimmed.headers.first? "Content-Length" = some "+5" := by decide
    have hlength : Reply.lengthOf? "+5" = some 5 := Reply.lengthOf?_of_plus hsigned
    have hgoes : Exchange.GoesBy smallLink.maxBody (declaring "+5").trimmed (Utf8.encode "hello") 5
        (helloBehind "+5") :=
      send_goesBy encode_pageRequest hwritten rfl
        (Reply.headsWithin_bytes hl (by decide) (by decide) _)
        (Reply.follows_bytes_trimmed hl (by decide) _) declaring_bodied declaring_unchunked hvalue
        hlength
    exact (hgoes.taken (by decide) (by decide)).1

end Link

end HttpExchange
