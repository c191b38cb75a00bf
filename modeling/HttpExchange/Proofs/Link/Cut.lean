import HttpExchange.Proofs.Link.Receive

/-!
# An exchange does not see where its bytes are cut

Whatever a far end sends, a reply or not, the result of an exchange depends on the bytes and on how
they end, and not on the reads that bring them.  The one thing that could tell reads apart is a head
too long to be read: a long read may bring its end before its length is looked at.  So this is for
bytes in which every head that ends is short enough.

* `Reply.HeadsWithin` — such bytes; the heads begin where `Reply.HeadBegins` says;
* `Link.settled_of_written` — in these all that arrives settles an exchange;
* `Link.send_outcome_eq` — streams that differ in their reading side only, and deliver the same;
* `Link.send_uncut` — the same bytes in any two sequences of pieces.
-/

namespace HttpExchange

namespace Reply

/-- What is left of some bytes where a head begins: at their front, and behind each interim head. -/
inductive HeadBegins (bytes : Bytes) : Bytes → Prop
  | front : HeadBegins bytes bytes
  | behind {rest : Bytes} {place : Nat} {head : Head} (begins : HeadBegins bytes rest)
      (ends : Bytes.find? headEnd 0 rest = some place)
      (reads : Head.ofBytes (rest.take (place + 4)) = .ok head) (interim : head.isInterim = true) :
      HeadBegins bytes (rest.drop (place + 4))

/-- Every head that ends, its end counted, is within the limit. -/
def HeadsWithin (bytes : Bytes) : Prop :=
  ∀ rest place, HeadBegins bytes rest → Bytes.find? headEnd 0 rest = some place →
    place + 4 ≤ maxHead

theorem HeadBegins.length_le {bytes rest : Bytes} (h : HeadBegins bytes rest) :
    rest.length ≤ bytes.length := by
  induction h with
  | front => exact Nat.le_refl _
  | behind _ _ _ _ ih => exact Nat.le_trans (by simp) ih

/-- No head is too long where all the bytes together are not. -/
theorem headsWithin_of_length_le {bytes : Bytes} (h : bytes.length ≤ maxHead) :
    HeadsWithin bytes := by
  intro rest place hbegins hends
  have hplace := (Bytes.find?_add_length_le hends).2
  have hrest := hbegins.length_le
  rw [show headEnd.length = 4 from rfl] at hplace
  omega

/-- Bytes that come later leave the heads that have begun where they are. -/
theorem HeadBegins.append {bytes rest : Bytes} (h : HeadBegins bytes rest) (more : Bytes) :
    HeadBegins (bytes ++ more) (rest ++ more) := by
  induction h with
  | front => exact .front
  | @behind rest place head _ hends hreads hinterim ih =>
    have hle : place + 4 ≤ rest.length := by
      have hplace := (Bytes.find?_add_length_le hends).2
      rwa [Nat.zero_add] at hplace
    have hall : (rest ++ more).take (place + 4) = rest.take (place + 4) :=
      List.take_append_of_le_length hle
    rw [← hall] at hreads
    rw [← List.drop_append_of_le_length hle]
    exact ih.behind (Bytes.find?_append_of_some hends more) hreads hinterim

namespace Reader

/-- A reader in front of a head goes on behind it. -/
theorem step_start_of_ends {method : Method} {maxBody place : Nat} {front : Bytes} {head : Head}
    (hends : Bytes.find? headEnd 0 front = some place)
    (hreads : Head.ofBytes (front.take (place + 4)) = .ok head) :
    (start method maxBody front).step =
      (start method maxBody front).afterHead head (front.drop (place + 4)) := by
  simp only [step, start, List.drop_zero, hends, hreads]

/-- Interim heads are passed over. -/
theorem advance_of_begins {method : Method} {maxBody : Nat} {bytes front : Bytes}
    (h : HeadBegins bytes front) :
    (start method maxBody bytes).advance = (start method maxBody front).advance := by
  induction h with
  | front => rfl
  | @behind rest place head _ hends hreads hinterim ih =>
    have hstep : (start method maxBody rest).step =
        .again (start method maxBody (rest.drop (place + 4))) := by
      rw [step_start_of_ends hends hreads, afterHead, if_pos hinterim]
      rfl
    rw [ih, advance_of_again hstep]

/-- A reader in front of a head, or within a body. -/
def Between (bytes : Bytes) (r : Reader) : Prop :=
  (r.stage = .head 0 ∧ HeadBegins bytes r.buffer) ∨ r.InBody

theorem Between.of_again {bytes : Bytes} {r s : Reader} (hr : r.Between bytes)
    (h : r.step = .again s) : s.Between bytes := by
  obtain ⟨hstage, hbegins⟩ | hbody := hr
  · rw [step, hstage] at h
    simp only [List.drop_zero] at h
    cases hfind : Bytes.find? headEnd 0 r.buffer with
    | none =>
      simp only [hfind] at h
      split at h <;> cases h
    | some place =>
      simp only [hfind] at h
      cases hhead : Head.ofBytes (r.buffer.take (place + 4)) with
      | error fault =>
        rw [hhead] at h
        cases h
      | ok head =>
        rw [hhead] at h
        cases hinterim : head.isInterim with
        | false => exact .inr (inBody_of_afterHead hinterim h)
        | true =>
          have hagain : s = r.goto (.head 0) (r.buffer.drop (place + 4)) := by
            simp only [afterHead, hinterim, if_true] at h
            cases h
            rfl
          exact .inl ⟨hagain ▸ rfl, hagain ▸ hbegins.behind hfind hhead hinterim⟩
  · exact .inr (inBody_of_again hbody h)

/-- A reader that begins with such bytes meets no head too long. -/
theorem headsFit_of_within (method : Method) (maxBody : Nat) {bytes : Bytes}
    (h : HeadsWithin bytes) : (start method maxBody bytes).HeadsFit := by
  intro t searched place hpasses hstage hfind
  have hbetween : t.Between bytes := by
    have hstart : (start method maxBody bytes).Between bytes := .inl ⟨rfl, .front⟩
    generalize start method maxBody bytes = r at hpasses hstart
    induction hpasses with
    | refl => exact hstart
    | again hstep _ ih => exact ih hstage hfind (hstart.of_again hstep)
  obtain ⟨hzero, hbegins⟩ | hbody := hbetween
  · cases hzero.symm.trans hstage
    exact h t.buffer place hbegins hfind
  · exact absurd hstage (hbody searched)

end Reader

end Reply

namespace Exchange

/-- How an exchange is over is settled by the verdict on all its bytes and by how these end. -/
theorem Settled.outcome_eq {one other : Link} {ending : Stream.Ending} {verdict : Reply.Verdict}
    {p q : Progress} (hends : ending ≠ .never) (hp : Settled one ending verdict p)
    (hq : Settled other ending verdict q) : p.outcome = q.outcome := by
  cases verdict with
  | complete head body delimited buffer =>
    obtain ⟨_, hp, -⟩ := hp
    obtain ⟨_, hq, -⟩ := hq
    rw [hp, hq]
  | failed error buffer =>
    obtain ⟨_, hp, -⟩ := hp
    obtain ⟨_, hq, -⟩ := hq
    rw [hp, hq]
  | wants r =>
    cases ending with
    | ended =>
      obtain ⟨method, maxBody, stage, buffer⟩ := r
      cases stage <;> exact hp.1.trans hq.1.symm
    | failed error => exact hp.1.trans hq.1.symm
    | never => exact absurd rfl hends

/-- Writing takes no notice of what is still to be read. -/
theorem writeAll_reading (bytes : Bytes) (s : Stream) (reads : List ReadStep)
    (wakeAt : Option Nat) :
    writeAll bytes (s.reading reads wakeAt) =
      ((writeAll bytes s).1, (writeAll bytes s).2.1,
        (writeAll bytes s).2.2.reading reads wakeAt) := by
  fun_induction writeAll bytes s with
  | case1 => rw [writeAll]
  | case2 s b rest t hwrite | case3 s b rest error t hwrite | case4 s b rest t hwrite =>
    simp [writeAll, hwrite]
  | case5 s b rest n t hwrite ih =>
    rw [writeAll]
    simp only [Stream.write_reading, hwrite]
    exact ih

@[simp]
theorem flushes_writeAll (bytes : Bytes) (s : Stream) :
    (writeAll bytes s).2.2.flushes = s.flushes := by
  fun_induction writeAll bytes s with
  | case1 => rfl
  | case2 s b rest t hwrite | case3 s b rest error t hwrite | case4 s b rest t hwrite =>
    rw [← Stream.flushes_write (b :: rest) s, hwrite]
  | case5 s b rest n t hwrite ih =>
    rw [ih, ← Stream.flushes_write (b :: rest) s, hwrite]

/-- What arrives once the stream has been flushed is the same before and after some bytes have been
written. -/
theorem arrives_of_writeAll {bytes left : Bytes} {fault : Option IoError} {s t : Stream}
    (h : writeAll bytes s = (left, fault, t)) :
    t.flush.2.delivered = s.flush.2.delivered ∧ t.flush.2.ending = s.flush.2.ending := by
  have hflushes := flushes_writeAll bytes s
  have hreads : (writeAll bytes s).2.2.reads = s.reads :=
    congrArg (fun result => result.2.2.reads) (writeAll_reading bytes s s.reads s.wakeAt)
  rw [h] at hflushes hreads
  have harrivals : Stream.arrivals (t.flushes + 1) t.reads =
      Stream.arrivals (s.flushes + 1) s.reads := by rw [hflushes, hreads]
  exact ⟨congrArg Prod.fst harrivals, congrArg Prod.snd harrivals⟩

/-- An exchange that cannot write its request is over, or waits, for a reason that has nothing to do
with what is still to be read. -/
theorem run_sending_reading {now clock : Nat} {link : Link} {method : Method} {bytes left : Bytes}
    {fault : Option IoError} {s t : Stream} {reads : List ReadStep} {wakeAt : Option Nat}
    (h : writeAll bytes s = (left, fault, t))
    (hstuck : ¬(left = [] ∧ fault = none ∧ t.flushError = none)) :
    ((sending method bytes).run true now link s).outcome =
      ((sending method bytes).run true clock link (s.reading reads wakeAt)).outcome := by
  simp only [run, writeAll_reading, h]
  cases fault with
  | some error => rfl
  | none =>
    cases left with
    | cons b rest => rfl
    | nil =>
      cases hflush : t.flushError with
      | none => exact absurd ⟨rfl, rfl, hflush⟩ hstuck
      | some error =>
        obtain ⟨u, hflushed⟩ : ∃ u, t.flush = (some error, u) := ⟨_, by rw [Stream.flush, hflush]⟩
        simp only [Stream.flush_reading, hflushed]

end Exchange

namespace Link

/-- Once the request is out, the bytes that arrive settle the exchange. -/
theorem settled_of_written (now : Nat) {link : Link} {request : Outgoing} {s t : Stream}
    {bytes : Bytes} (hencode : request.encode? link.viaProxy = .ok bytes)
    (hwrite : Exchange.writeAll bytes s = ([], none, t)) (hflush : t.flushError = none)
    (hfit : Reply.HeadsWithin (link.buffer ++ t.flush.2.delivered)) :
    Exchange.Settled { link with reusable := false } t.flush.2.ending
      (Reply.Reader.start request.method link.maxBody
        (link.buffer ++ t.flush.2.delivered)).advance
      (link.send true now request s) := by
  rw [send_of_written hencode hwrite hflush]
  exact Exchange.receive_settled { link with reusable := false }
    (Reply.Reader.placed_start request.method link.maxBody link.buffer)
    (Reply.Reader.headsFit_of_within request.method link.maxBody hfit) now

/-- **Only what arrives counts.**  Two streams that take alike what is written to them, and deliver
the same bytes with the same end once the request has been flushed, make an exchange come to the
same outcome, where every head that ends is short enough. -/
theorem send_outcome_eq {now clock : Nat} {link : Link} {request : Outgoing} {s t : Stream}
    (halike : s.Alike t) (hdelivers : s.flush.2.delivered = t.flush.2.delivered)
    (hending : s.flush.2.ending = t.flush.2.ending) (hends : s.flush.2.ending ≠ .never)
    (hfit : Reply.HeadsWithin (link.buffer ++ s.flush.2.delivered)) :
    (link.send true now request s).outcome = (link.send true clock request t).outcome := by
  obtain ⟨reads, wakeAt, rfl⟩ := halike
  cases hencode : request.encode? link.viaProxy with
  | error error =>
    rw [send, send, begin, hencode]
    rfl
  | ok bytes =>
    have hother := Exchange.writeAll_reading bytes s reads wakeAt
    generalize hone : Exchange.writeAll bytes s = written at hother
    obtain ⟨left, fault, u⟩ := written
    by_cases hwritten : left = [] ∧ fault = none ∧ u.flushError = none
    · -- The request is out.  What is read now has the same bytes for both, and they settle it.
      obtain ⟨rfl, rfl, hflush⟩ := hwritten
      obtain ⟨hdelivered, hended⟩ := Exchange.arrives_of_writeAll hone
      obtain ⟨hdelivered', hended'⟩ := Exchange.arrives_of_writeAll hother
      rw [← hdelivers] at hdelivered'
      rw [← hending] at hended'
      have hsettled := settled_of_written now hencode hone hflush (by rw [hdelivered]; exact hfit)
      have hsettled' := settled_of_written clock hencode hother hflush
        (by rw [hdelivered']; exact hfit)
      rw [hdelivered, hended] at hsettled
      rw [hdelivered', hended'] at hsettled'
      exact hsettled.outcome_eq hends hsettled'
    · have hbegin : link.begin request =
          ({ link with reusable := false }, .ok (.sending request.method bytes)) := by
        rw [begin, hencode]
        rfl
      rw [send, send, hbegin]
      exact Exchange.run_sending_reading hone hwritten

/-- **A reply may be cut anywhere, and so may anything else.**  Some bytes come in one sequence of
pieces or in another, and then the stream ends, or a read fails.  Then an exchange comes to the same
outcome, the same reply or the same error, whatever its request, the limit on the body and the way
the stream takes the request; provided that every head that ends is short enough. -/
theorem send_uncut (now : Nat) (link : Link) (request : Outgoing) (s : Stream)
    {pieces others : List Bytes} (fault : Option IoError) (hpieces : ∀ piece ∈ pieces, piece ≠ [])
    (hothers : ∀ piece ∈ others, piece ≠ []) (hsame : pieces.flatten = others.flatten)
    (hfit : Reply.HeadsWithin (link.buffer ++ pieces.flatten)) :
    (link.send true now request { s with reads := Stream.script pieces fault }).outcome =
      (link.send true now request { s with reads := Stream.script others fault }).outcome := by
  let one : Stream := { s with reads := Stream.script pieces fault }
  let other : Stream := { s with reads := Stream.script others fault }
  have hone := Stream.arrivals_script (s.flushes + 1) hpieces fault
  have hother := Stream.arrivals_script (s.flushes + 1) hothers fault
  have harrivals : Stream.arrivals (s.flushes + 1) (Stream.script pieces fault) =
      Stream.arrivals (s.flushes + 1) (Stream.script others fault) := by
    rw [hone, hother, hsame]
  refine send_outcome_eq (s := one) (t := other) ⟨other.reads, other.wakeAt, rfl⟩
    (congrArg Prod.fst harrivals) (congrArg Prod.snd harrivals) ?_ ?_
  · show (Stream.arrivals (s.flushes + 1) (Stream.script pieces fault)).2 ≠ .never
    rw [hone]
    cases fault <;> exact nofun
  · have hdelivered : one.flush.2.delivered = pieces.flatten := congrArg Prod.fst hone
    rw [hdelivered]
    exact hfit

/-- A reply whose length is not a number. -/
def unreadable : Bytes :=
  ("HTTP/1.1 200 OK\r\nContent-Length: x\r\n\r\n".toList.map fun c => c.toNat.toUInt8)

/-- It is found out in one piece and byte by byte. -/
theorem send_uncut_unreadable :
    let request : Outgoing :=
      { url := { scheme := "http", host := some (.name "example.com") } }
    let link : Link :=
      { id := 0, destination := ⟨"http", "example.com", 80⟩, address := ⟨.ipv4 0, 80⟩ }
    (link.send true 0 request { reads := Stream.script [unreadable] none }).outcome =
      (link.send true 0 request
        { reads := Stream.script (unreadable.map fun b => [b]) none }).outcome := by
  intro request link
  refine send_uncut 0 link request {} none (by decide) ?_ (by decide)
    (Reply.headsWithin_of_length_le (by decide))
  intro piece hpiece
  obtain ⟨b, -, rfl⟩ := List.mem_map.1 hpiece
  exact List.cons_ne_nil b []

end Link

end HttpExchange
