import HttpExchange.Proofs.Link.Cut
import HttpExchange.Proofs.Link.Held

/-!
# The limit on a body

The three ways of marking the end of a body hold it against the limit at different moments: a
declared length when the head is over, a chunk when the line of its size is, and a body that ends
with the stream whenever more of it has come.  They come to the same.  No reply has a body beyond
the limit; a body that goes beyond it is refused, however its end is marked and however the bytes
are cut; and a body that is just within it is taken.

* `Verdict.Fits`, `fits_advance`, `Exchange.length_body_le` — what a reader and a read preserve;
* `Follows`, `advance_of_follows` — the bytes behind the final head;
* `Encloses`, `Overruns` — these hold a body, or go beyond the limit;
* `Link.send_limits_body` — what sending a request comes to.
-/

namespace HttpExchange

namespace Reply

variable {limit : Nat} {method : Method} {bytes rest : Bytes} {head : Head}

/-! ### No body goes beyond the limit -/

/-- A body that is complete is within the limit, and so is what still may be one. -/
def Verdict.Fits (limit : Nat) : Verdict → Prop
  | wants r => r.stage.Fits limit ∧ ∀ head, r.stage = .untilEnd head → r.buffer.length ≤ limit
  | complete _ body _ _ => body.length ≤ limit
  | failed _ _ => True

namespace Reader

theorem fits_afterHead {r : Reader} {verdict : Verdict}
    (h : r.afterHead head rest = .stop verdict) : verdict.Fits r.maxBody := by
  simp only [afterHead] at h
  repeat' split at h
  all_goals first | (cases h; exact Nat.zero_le _) | (cases h; trivial) | cases h

theorem fits_of_stop {r : Reader} {verdict : Verdict} (hfits : r.stage.Fits r.maxBody)
    (h : r.step = .stop verdict) : verdict.Fits r.maxBody := by
  -- Only within a body that ends with the stream are there bytes of it at hand.
  have hwants {stage : Stage} (hstage : r.stage = stage)
      (hother : ∀ head, stage ≠ .untilEnd head) : (Verdict.wants r).Fits r.maxBody := by
    refine ⟨hfits, ?_⟩
    intro head huntil
    exact absurd (hstage.symm.trans huntil) (hother head)
  cases hstage : r.stage with
  | head searched =>
    simp only [step, hstage] at h
    split at h
    · split at h
      · cases h
        trivial
      · exact fits_afterHead h
    · split at h
      · cases h
        trivial
      · cases h
        refine ⟨Nat.zero_le _, ?_⟩
        intro head huntil
        cases huntil
  | counted head length =>
    simp only [step, hstage] at h
    split at h
    · cases h
      exact hwants hstage (by simp)
    · cases h
      rw [hstage] at hfits
      exact Nat.le_trans (List.length_take_le _ _) hfits
  | untilEnd head =>
    simp only [step, hstage] at h
    split at h
    · cases h
      trivial
    · next hlength =>
      cases h
      exact ⟨hfits, fun _ _ => Nat.le_of_not_lt hlength⟩
  | trailers head body =>
    simp only [step, hstage] at h
    split at h
    · cases h
      exact hwants hstage (by simp)
    · split at h
      · cases h
        rw [hstage] at hfits
        exact hfits
      · cases h
  -- Between chunks a reader stops to ask for more, or because of a fault.
  | chunkSize head body | chunkData head body size | chunkEnd head body =>
    simp only [step, hstage] at h
    repeat' split at h
    all_goals first
      | (cases h; exact hwants hstage (by simp))
      | (cases h; trivial)
      | cases h

/-- Where the stream ends, what has come of a body has been held against the limit already. -/
theorem fits_ended {r : Reader} (h : (Verdict.wants r).Fits limit) : r.ended.Fits limit := by
  obtain ⟨-, hbuffer⟩ := h
  rw [ended]
  split
  · next head hstage => exact hbuffer head hstage
  · trivial

/-- **Whatever a reader comes to is within the limit.** -/
theorem fits_advance {r : Reader} (hlimit : limit + 1 < Numeral.lengthBound)
    (hmax : r.maxBody = limit) (hfits : r.stage.Fits limit) : r.advance.Fits limit := by
  fun_induction Reader.advance r with
  | case1 r s hstep ih =>
    have hkept := (keeps_of_again hstep).2.trans hmax
    subst hmax
    exact ih hkept ((goes_of_again hstep).fits hlimit hfits)
  | case2 r verdict hstep =>
    subst hmax
    exact fits_of_stop hfits hstep

end Reader

/-! ### The bytes behind the final head -/

/-- Behind the interim heads and the final head these bytes follow. -/
inductive Follows (bytes : Bytes) (head : Head) : Bytes → Prop
  | behind {front : Bytes} {place : Nat} (begins : HeadBegins bytes front)
      (ends : Bytes.find? headEnd 0 front = some place)
      (reads : Head.ofBytes (front.take (place + 4)) = .ok head)
      (final : head.isInterim = false) : Follows bytes head (front.drop (place + 4))

namespace Reader

theorem advance_of_follows (method : Method) (limit : Nat) (h : Follows bytes head rest) :
    ∃ front, (start method limit bytes).advance = (start method limit front).advance ∧
      (start method limit front).step = (start method limit front).afterHead head rest := by
  obtain ⟨hbegins, hends, hreads, -⟩ := h
  exact ⟨_, advance_of_begins hbegins, step_start_of_ends hends hreads⟩

end Reader

/-- Behind a head that is written there follows what follows it. -/
theorem follows_bytes_trimmed (hl : head.Plain) (hfinal : head.isInterim = false) (rest : Bytes) :
    Follows (head.bytes ++ rest) head.trimmed rest := by
  have hreads : Head.ofBytes ((head.bytes ++ rest).take (head.bytes.length - 4 + 4)) =
      .ok head.trimmed := by
    rw [head.take_bytes]
    exact Head.ofBytes_bytes_trimmed hl
  have hbehind := Follows.behind .front (Head.find?_bytes hl rest) hreads hfinal
  rwa [head.drop_bytes] at hbehind

theorem follows_bytes (hl : head.Legible) (hfinal : head.isInterim = false) (rest : Bytes) :
    Follows (head.bytes ++ rest) head rest := by
  have hfollows := follows_bytes_trimmed hl.plain hfinal rest
  rwa [hl.trimmed_eq] at hfollows

theorem Follows.isInterim_eq (h : Follows bytes head rest) : head.isInterim = false := by
  obtain ⟨-, -, -, hfinal⟩ := h
  exact hfinal

/-! ### Bodies within the limit and beyond it -/

/-- A head says how long the body is: digits, perhaps behind a plus sign, between blanks. -/
def Head.Declares (h : Head) (length : Nat) : Prop :=
  ∃ value digits, h.headers.first? "Content-Length" = some value ∧
    ((Blank.trim value).toList = digits ∨ (Blank.trim value).toList = '+' :: digits) ∧
    digits ≠ [] ∧ (∀ c ∈ digits, c.isDigit = true) ∧ Nat.ofDigitChars 10 digits 0 = length

/-- The bytes that hold a body behind a head, and whether they mark its end. -/
inductive Encloses (head : Head) : Bytes → Bytes → Bool → Prop
  | counted {body : Bytes} (plain : ¬head.NamesChunked) (declares : head.Declares body.length) :
      Encloses head body body true
  | chunked (c : Chunked) (named : head.NamesChunked) : Encloses head c.bytes c.data true
  | untilEnd {body : Bytes} (plain : ¬head.NamesChunked)
      (silent : head.headers.first? "Content-Length" = none) : Encloses head body body false

/-- The bytes behind a head go beyond the limit: by the length that is declared, by the size of a
chunk behind others, or by their number. -/
inductive Overruns (limit : Nat) (head : Head) : Bytes → Prop
  | counted {length : Nat} {rest : Bytes} (plain : ¬head.NamesChunked)
      (declares : head.Declares length) (beyond : limit < length)
      (small : length < Numeral.lengthBound) : Overruns limit head rest
  | chunked (chunks : List Chunk) {size : Nat} (line : SizeLine size) (rest : Bytes)
      (named : head.NamesChunked) (within : (chunks.flatMap Chunk.data).length ≤ limit)
      (beyond : limit < (chunks.flatMap Chunk.data).length + size)
      (small : size < Numeral.lengthBound) :
      Overruns limit head (chunks.flatMap Chunk.bytes ++ (closed line.bytes ++ rest))
  | untilEnd {rest : Bytes} (plain : ¬head.NamesChunked)
      (silent : head.headers.first? "Content-Length" = none) (beyond : limit < rest.length) :
      Overruns limit head rest

/-- A length that is declared is read. -/
theorem Head.Declares.bounded? {length : Nat} (h : head.Declares length)
    (hsmall : length < Numeral.lengthBound) :
    ∃ value, head.headers.first? "Content-Length" = some value ∧
      Numeral.bounded? 10 Numeral.lengthBound (Blank.trim value).toList = some length := by
  obtain ⟨value, digits, hvalue, htext, hne, hdigits, hlength⟩ := h
  have hread : Numeral.digits? 10 digits = some length :=
    (Numeral.digits?_ten_eq_some_iff digits length).2 ⟨hne, hdigits, hlength⟩
  refine ⟨value, hvalue, ?_⟩
  rcases htext with htext | htext
  · have hhead : digits.head? ≠ some '+' := by
      intro hplus
      exact absurd (hdigits '+' (List.mem_of_head? hplus)) (by decide)
    rw [htext]
    exact Numeral.bounded?_of_digits? hsmall hhead hread
  · rw [htext, Numeral.bounded?, Numeral.signed?, hread, Option.filter_some,
      if_pos (decide_eq_true hsmall)]

namespace Reader

variable {r : Reader} {length : Nat}

/-- What a declared length comes to. -/
theorem afterHead_of_declares (hfinal : head.isInterim = false) (hbody : ¬Bodiless r.method head)
    (hplain : ¬head.NamesChunked) (h : head.Declares length)
    (hsmall : length < Numeral.lengthBound) :
    r.afterHead head rest =
      if r.maxBody < length then fail (.bodyTooLong r.maxBody) rest
      else .again (r.goto (.counted head length) rest) := by
  obtain ⟨value, hvalue, hread⟩ := h.bounded? hsmall
  rw [afterHead, if_neg (Bool.eq_false_iff.1 hfinal), if_neg (mt bodiless_iff.2 hbody),
    if_neg (mt (isChunked_iff head).1 hplain)]
  simp only [hvalue, hread]

/-- The size of a chunk that goes beyond the limit is refused, however large it is. -/
theorem step_chunkSize_of_over (head : Head) {body : Array UInt8} {size : Nat}
    (line : SizeLine size) (rest : Bytes) (hlimit : r.maxBody + 1 < Numeral.lengthBound)
    (hwithin : body.size ≤ r.maxBody)
    (hover : r.maxBody < body.size + size) (hsmall : size < Numeral.lengthBound) :
    (r.goto (.chunkSize head body) (closed line.bytes ++ rest)).step =
      fail (.bodyTooLong r.maxBody) rest := by
  have hcut := cutLine_closed line.ne_cr_of_mem_bytes rest
  have hread := line.chunkSize?_bytes hsmall
  -- The sum may be cut short at the greatest length, but that is beyond the limit too.
  have hgrown : r.maxBody < grown body.size size := by
    rw [grown]
    omega
  cases size with
  | zero => omega
  | succ size =>
    simp only [step, goto, hcut, hread]
    exact if_pos hgrown

/-- **A body that goes beyond the limit is refused.** -/
theorem advance_of_overruns (hstep : r.step = r.afterHead head rest)
    (hfinal : head.isInterim = false) (hbody : ¬Bodiless r.method head)
    (hlimit : r.maxBody + 1 < Numeral.lengthBound) (h : Overruns r.maxBody head rest) :
    ∃ buffer, r.advance = .failed (.badReply (.bodyTooLong r.maxBody)) buffer := by
  cases h with
  | counted hplain hdeclares hover hsmall =>
    rw [afterHead_of_declares hfinal hbody hplain hdeclares hsmall, if_pos hover] at hstep
    exact ⟨rest, advance_of_stop hstep⟩
  | chunked chunks line rest hnamed hwithin hover hsmall =>
    rw [afterHead_of_chunked hfinal hbody hnamed] at hstep
    obtain ⟨whole, hwhole, hadvance⟩ := advance_chunks r head chunks (closed line.bytes ++ rest)
      (by omega) #[] (by simpa using hwithin)
    have hsize : whole.size = (chunks.flatMap Chunk.data).length := by
      rw [← Array.length_toList, hwhole]
      rfl
    rw [← hsize] at hwithin hover
    have hstop := step_chunkSize_of_over head line rest hlimit hwithin hover hsmall
    exact ⟨rest, by rw [advance_of_again hstep, hadvance, advance_of_stop hstop]⟩
  | untilEnd hplain hsilent hover =>
    rw [afterHead_of_untilEnd hfinal hbody hplain hsilent] at hstep
    have hstop : (r.goto (.untilEnd head) rest).step = fail (.bodyTooLong r.maxBody) rest :=
      if_pos hover
    exact ⟨rest, by rw [advance_of_again hstep, advance_of_stop hstop]⟩

/-- **A body whose end is marked is taken**, if it is within the limit. -/
theorem advance_of_encloses {wire body : Bytes} (hstep : r.step = r.afterHead head (wire ++ rest))
    (hfinal : head.isInterim = false) (hbody : ¬Bodiless r.method head)
    (hlimit : r.maxBody + 1 < Numeral.lengthBound) (h : Encloses head wire body true)
    (hfits : body.length ≤ r.maxBody) : r.advance = .complete head body true rest := by
  cases h with
  | counted hplain hdeclares =>
    rw [afterHead_of_declares hfinal hbody hplain hdeclares (by omega),
      if_neg (Nat.not_lt.2 hfits)] at hstep
    have hlong : ¬(wire ++ rest).length < wire.length := by
      rw [List.length_append]
      omega
    have hstop : (r.goto (.counted head wire.length) (wire ++ rest)).step =
        .stop (.complete head ((wire ++ rest).take wire.length) true
          ((wire ++ rest).drop wire.length)) := if_neg hlong
    rw [advance_of_again hstep, advance_of_stop hstop, List.take_left, List.drop_left]
  | chunked c hnamed =>
    rw [afterHead_of_chunked hfinal hbody hnamed] at hstep
    rw [advance_of_again hstep]
    exact advance_chunked r head c rest hfits (by omega)

/-- So is a body that ends with the stream, once it does. -/
theorem advance_of_encloses_untilEnd {body : Bytes} (hstep : r.step = r.afterHead head rest)
    (hfinal : head.isInterim = false) (hbody : ¬Bodiless r.method head)
    (h : Encloses head rest body false) (hfits : body.length ≤ r.maxBody) :
    r.advance = .wants (r.goto (.untilEnd head) body) := by
  cases h with
  | untilEnd hplain hsilent =>
    exact advance_untilEnd hstep hfinal (.untilEnd rest hbody hplain hsilent) hfits

end Reader

end Reply

namespace Exchange

/-- **No reply has a body beyond the limit**, however an exchange goes. -/
theorem length_body_le {patient : Bool} {now limit : Nat} {link : Link} {r : Reply.Reader}
    {s : Stream} {reply : Reply} (hlimit : limit + 1 < Numeral.lengthBound)
    (hmax : r.maxBody = limit) (hfits : r.stage.Fits limit)
    (h : (receive patient now link r s).outcome = .finished (.ok reply)) :
    reply.body.length ≤ limit := by
  have hadvance := Reply.Reader.fits_advance hlimit hmax hfits
  fun_induction receive patient now link r s with
  | case1 _ _ _ _ _ _ _ hcomplete =>
    rw [hcomplete] at hadvance
    cases h
    exact hadvance
  | case3 _ _ _ u hwants bytes _ _ _ ih =>
    rw [hwants] at hadvance
    have hkept : (u.received bytes).maxBody = limit :=
      (Reply.Reader.keeps_of_wants hwants).2.trans hmax
    have hnext : (u.received bytes).stage.Fits limit := hadvance.1
    exact ih hkept hnext h (Reply.Reader.fits_advance hlimit hkept hnext)
  | case6 _ _ _ u hwants _ _ _ _ _ _ _ hended =>
    rw [hwants] at hadvance
    have hverdict := Reply.Reader.fits_ended hadvance
    rw [hended] at hverdict
    cases h
    exact hverdict
  | _ => cases h

theorem length_body_le_of_run {patient : Bool} {now : Nat} (link : Link) {method : Method}
    {bytes : Bytes} {s : Stream} {reply : Reply} (hlimit : link.maxBody + 1 < Numeral.lengthBound)
    (h : ((sending method bytes).run patient now link s).outcome = .finished (.ok reply)) :
    reply.body.length ≤ link.maxBody := by
  rw [run] at h
  split at h
  · cases h
  · cases h
  · split at h
    · cases h
    · exact length_body_le hlimit rfl (Nat.zero_le _) h

end Exchange

namespace Link

/-- **The limit on a body.**  Let the limit be less than the greatest length there is.  Then no
reply has a longer body.  Let the request be written and flushed, and let no head be too long, and
the final one allow a body.  Then, however the bytes are cut into reads, the exchange fails when a
body goes beyond the limit, and the link is not used again; and it ends with the reply when the body
is within the limit, be it just so. -/
theorem send_limits_body {link : Link} (hlimit : link.maxBody + 1 < Numeral.lengthBound)
    (request : Outgoing) :
    (∀ patient now s reply, (link.send patient now request s).outcome = .finished (.ok reply) →
      reply.body.length ≤ link.maxBody) ∧
    ∀ now s t bytes head rest, request.encode? link.viaProxy = .ok bytes →
      Exchange.writeAll bytes s = ([], none, t) → t.flushError = none →
      Reply.HeadsWithin (link.buffer ++ t.flush.2.delivered) →
      Reply.Follows (link.buffer ++ t.flush.2.delivered) head rest →
      ¬Reply.Bodiless request.method head →
      let p := link.send true now request s
      (Reply.Overruns link.maxBody head rest →
        p.link.reusable = false ∧ ∃ error, p.outcome = .finished (.error error) ∧
          error.name = "InvalidResponse" ∧ error.message = "invalid response: " ++
            ("response body exceeds " ++ Numeral.decimal link.maxBody ++ " bytes")) ∧
      ∀ wire body delimited surplus, Reply.Encloses head wire body delimited →
        rest = wire ++ surplus → body.length ≤ link.maxBody →
        (delimited = false → surplus = [] ∧ t.flush.2.ending = .ended) →
        p.outcome = .finished (.ok (head.withBody body)) := by
  constructor
  · intro patient now s reply h
    rw [send, begin] at h
    cases hencode : request.encode? link.viaProxy with
    | error error =>
      rw [hencode] at h
      cases h
    | ok bytes =>
      rw [hencode] at h
      exact Exchange.length_body_le_of_run { link with reusable := false } hlimit h
  · intro now s t bytes head rest hencode hwrite hflush hfit hfollows hbody p
    have hsettled := settled_of_written now hencode hwrite hflush hfit
    obtain ⟨front, hadvance, hstep⟩ :=
      Reply.Reader.advance_of_follows request.method link.maxBody hfollows
    have hfinal := hfollows.isInterim_eq
    rw [hadvance] at hsettled
    constructor
    · intro hover
      obtain ⟨buffer, hfailed⟩ :=
        Reply.Reader.advance_of_overruns hstep hfinal hbody hlimit hover
      rw [hfailed] at hsettled
      obtain ⟨left, houtcome, hlink, -⟩ := hsettled
      exact ⟨congrArg Link.reusable hlink, _, houtcome, rfl, rfl⟩
    · intro wire body delimited surplus hencloses hrest hle hend
      subst hrest
      cases delimited with
      | true =>
        rw [Reply.Reader.advance_of_encloses hstep hfinal hbody hlimit hencloses hle] at hsettled
        obtain ⟨left, houtcome, -⟩ := hsettled
        exact houtcome
      | false =>
        obtain ⟨rfl, hending⟩ := hend rfl
        rw [List.append_nil] at hstep
        rw [Reply.Reader.advance_of_encloses_untilEnd hstep hfinal hbody hencloses hle, hending]
          at hsettled
        exact hsettled.1

/-- A reply that declares one byte more than the small link takes. -/
def nineAhead : Reply.Head := ⟨200, "OK", "HTTP/1.1", [⟨"Content-Length", "9"⟩]⟩

theorem nineAhead_legible : nineAhead.Legible := by
  refine ⟨by decide, List.all_iff_forall_prop.1 (by decide), by decide, by decide,
    List.all_iff_forall_prop.1 (by decide), ?_⟩
  rw [nineAhead, List.forall_mem_singleton]
  exact ⟨List.all_iff_forall_prop.1 (by decide), by decide,
    List.all_iff_forall_prop.1 (by decide), by decide⟩

/-- It is refused before any of the body has come. -/
theorem send_limits_body_nine :
    let p := smallLink.send true 0 pageRequest { reads := [.data nineAhead.bytes] }
    p.link.reusable = false ∧ ∃ error, p.outcome = .finished (.error error) ∧
      error.message = "invalid response: response body exceeds 8 bytes" := by
  intro p
  have hlimit : smallLink.maxBody + 1 < Numeral.lengthBound := by decide
  have harrive : ∀ t : Stream, t.reads = [.data nineAhead.bytes] →
      smallLink.buffer ++ t.delivered = nineAhead.bytes ++ [] := by
    intro t ht
    rw [Stream.delivered, ht]
    rfl
  have hplain : ¬nineAhead.NamesChunked := by
    rintro ⟨value, hvalue, -⟩
    cases hvalue
  have hdeclares : nineAhead.Declares 9 :=
    ⟨"9", ['9'], by decide, .inl (by decide), List.cons_ne_nil _ _,
      List.forall_mem_singleton.2 (by decide), by decide⟩
  have hlength : (nineAhead.bytes ++ []).length ≤ Reply.maxHead := by decide
  have hfollows := Reply.follows_bytes nineAhead_legible (by decide) []
  have hbody : ¬Reply.Bodiless pageRequest.method nineAhead := by
    simp [Reply.Bodiless, nineAhead, pageRequest]
  have hwritten := Exchange.writeAll_of_willing (s := { reads := [.data nineAhead.bytes] }) rfl
    (Utf8.encode (pageRequest.headText false "example.com") ++ [])
  obtain ⟨hunused, error, houtcome, -, hmessage⟩ :=
    ((send_limits_body hlimit pageRequest).2 0 _ _ _ nineAhead [] encode_pageRequest hwritten rfl
      (Reply.headsWithin_of_length_le (by rw [harrive _ rfl]; exact hlength))
      (by rw [harrive _ rfl]; exact hfollows) hbody).1
      (.counted hplain hdeclares (by decide) (by decide))
  exact ⟨hunused, error, houtcome, hmessage⟩

end Link

end HttpExchange
