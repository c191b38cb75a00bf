import HttpExchange.Proofs.Link.Cut
import HttpExchange.Proofs.Link.Held

/-!
# The limit on a head

While the end of a head has not come, the bytes at hand are held against the limit before more is
read.  So a head too long is refused at the end of a read: when more of it is at hand than there may
be, and its end is not.  A read that begins within the limit may bring the end of a longer head, and
then the head is taken.

* `Overlong`, `advance_headTooLarge_iff` — what a reader refuses that has all its bytes at hand;
* `Exceeds` — a head goes beyond a length, however it is cut;
* `Exchange.receive_headTooLarge_iff` — an exchange refuses what is overlong after some read;
* `Link.send_takes_late` — it takes what is not overlong after any;
* `Link.send_headTooLarge_iff` — so the limit holds but for what one read brings;
* `Link.send_headTooLarge_fails` — it does not hold to the byte.
-/

namespace HttpExchange

/-- A pattern that is found only with more bytes does not end among the others. -/
theorem Bytes.lt_of_find?_append {pattern xs ys : Bytes} {place : Nat}
    (hnone : find? pattern 0 xs = none) (h : find? pattern 0 (xs ++ ys) = some place)
    (hpattern : pattern ≠ []) : xs.length < place + pattern.length := by
  have hpos := List.length_pos_iff.2 hpattern
  by_cases hshort : xs.length < pattern.length
  · omega
  · have hskip : xs.length - pattern.length + 1 + pattern.length ≤ xs.length + 1 := by omega
    rw [find?_append_of_none hnone hskip] at h
    have hplace := (find?_add_length_le h).1
    omega

namespace Reply

variable {method : Method} {maxBody : Nat} {bytes part rest buffer more : Bytes} {head : Head}

/-! ### What a reader refuses -/

/-- More of a head is at hand than a head may have, and its end is not. -/
def Overlong (bytes : Bytes) : Prop :=
  ∃ part, HeadBegins bytes part ∧ maxHead < part.length ∧ Bytes.find? headEnd 0 part = none

/-- A head is longer than that, or it has no end and more bytes than that. -/
def Exceeds (length : Nat) (bytes : Bytes) : Prop :=
  ∃ rest, HeadBegins bytes rest ∧ length < rest.length ∧
    ∀ place, Bytes.find? headEnd 0 rest = some place → length < place + 4

/-- A verdict that a head is too large. -/
def Verdict.TooLarge (v : Verdict) : Prop := ∃ buffer, v = .failed (.badReply .headTooLarge) buffer

/-- A fault met on the way through a list is the fault of one of its members. -/
theorem exists_of_mapM_error {α β : Type} {f : α → Except Fault β} {xs : List α} {fault : Fault}
    (h : xs.mapM f = .error fault) : ∃ x, f x = .error fault := by
  induction xs with
  | nil => cases h
  | cons x xs ih =>
    rw [List.mapM_cons] at h
    cases hx : f x with
    | error other =>
      rw [hx] at h
      cases h
      exact ⟨x, hx⟩
    | ok y =>
      cases hrest : xs.mapM f with
      | error other =>
        rw [hx, hrest] at h
        cases h
        exact ih hrest
      | ok ys =>
        rw [hx, hrest] at h
        cases h

theorem Head.fields_ne_headTooLarge (lines : List (List Char)) :
    fields lines ≠ .error .headTooLarge := by
  intro h
  obtain ⟨line, hline⟩ := exists_of_mapM_error h
  cases hfield : field? line with
  | none =>
    rw [hfield] at hline
    cases hline
  | some field =>
    rw [hfield] at hline
    cases hline

/-- What a head says is no reason to call it too large. -/
theorem Head.ofBytes_ne_headTooLarge (bytes : Bytes) : ofBytes bytes ≠ .error .headTooLarge := by
  intro h
  simp only [ofBytes] at h
  split at h
  · cases h
  · split at h
    · cases h
    · split at h
      · cases h
      · next lines _ _ _ _ _ _ =>
        cases hfields : fields lines with
        | error fault =>
          rw [hfields] at h
          cases h
          exact fields_ne_headTooLarge _ hfields
        | ok headers =>
          rw [hfields] at h
          cases h

namespace Reader

/-- Once a head is read, a verdict does not find it too large. -/
theorem not_tooLarge_of_afterHead {r : Reader} {verdict : Verdict}
    (h : r.afterHead head rest = .stop verdict) : ¬verdict.TooLarge := by
  rintro ⟨buffer, rfl⟩
  simp only [afterHead] at h
  repeat' split at h
  all_goals cases h

/-- Only in front of a head is one found too large: the end of it is not at hand. -/
theorem overlong_of_stop {r : Reader} (hr : r.Between bytes)
    (h : r.step = .stop (.failed (.badReply .headTooLarge) buffer)) :
    HeadBegins bytes buffer ∧ maxHead < buffer.length ∧
      Bytes.find? headEnd 0 buffer = none := by
  obtain ⟨hstage, hbegins⟩ | hbody := hr
  · simp only [step, hstage, List.drop_zero] at h
    split at h
    · split at h
      · next fault hfault =>
        cases h
        exact absurd hfault (Head.ofBytes_ne_headTooLarge _)
      · exact absurd ⟨buffer, rfl⟩ (not_tooLarge_of_afterHead h)
    · next hfind =>
      split at h
      · next hlength =>
        cases h
        exact ⟨hbegins, hlength, hfind⟩
      · cases h
  · simp only [step] at h
    split at h
    · next hstage => exact absurd hstage (hbody _)
    all_goals
      repeat' split at h
      all_goals cases h

/-- **What a reader refuses that has all its bytes at hand.** -/
theorem advance_headTooLarge_iff :
    (start method maxBody bytes).advance = .failed (.badReply .headTooLarge) buffer ↔
      HeadBegins bytes buffer ∧ maxHead < buffer.length ∧
        Bytes.find? headEnd 0 buffer = none := by
  constructor
  · intro h
    have hstart : (start method maxBody bytes).Between bytes := .inl ⟨rfl, .front⟩
    generalize start method maxBody bytes = r at h hstart
    fun_induction advance r with
    | case1 r s hstep ih => exact ih h (hstart.of_again hstep)
    | case2 r verdict hstep => exact overlong_of_stop hstart (h ▸ hstep)
  · rintro ⟨hbegins, hlength, hnone⟩
    have hlong : (start method maxBody buffer).TooLong := ⟨0, rfl, hnone, hlength⟩
    rw [advance_of_begins hbegins, advance_of_stop hlong.step]
    rfl

theorem tooLarge_advance_start :
    (start method maxBody bytes).advance.TooLarge ↔ Overlong bytes :=
  exists_congr fun _ => advance_headTooLarge_iff

/-- A reader that finds a head too large with more bytes has found so before, or has asked for
more. -/
theorem tooLarge_of_received {r : Reader} (hr : r.Placed)
    (h : (r.received more).advance.TooLarge) :
    r.advance.TooLarge ∨ ∃ u, r.advance = .wants u := by
  by_cases hnow : r.advance.TooLarge
  · exact .inl hnow
  · rw [advance_received_of_ne hr (fun buffer hfailed => hnow ⟨buffer, hfailed⟩)] at h
    obtain ⟨buffer, hfailed⟩ := h
    cases hv : r.advance with
    | wants u => exact .inr ⟨u, rfl⟩
    | complete head body delimited left =>
      rw [hv] at hfailed
      cases hfailed
    | failed error left =>
      rw [hv] at hfailed
      cases hfailed
      exact absurd ⟨left, hv⟩ hnow

end Reader

/-! ### Where a head that goes beyond the limit is cut -/

/-- **What is refused goes beyond the limit**, whatever comes later. -/
theorem Overlong.exceeds (h : Overlong bytes) (more : Bytes) : Exceeds maxHead (bytes ++ more) := by
  obtain ⟨part, hbegins, hlength, hnone⟩ := h
  refine ⟨part ++ more, hbegins.append more, ?_, ?_⟩
  · rw [List.length_append]
    omega
  · intro place hplace
    have hlt := Bytes.lt_of_find?_append hnone hplace (by simp [headEnd])
    rw [show headEnd.length = 4 from rfl] at hlt
    omega

theorem Overlong.lt_length (h : Overlong bytes) : maxHead < bytes.length := by
  obtain ⟨part, hbegins, hlength, -⟩ := h
  exact Nat.lt_of_lt_of_le hlength hbegins.length_le

/-- Behind a final head no other begins. -/
theorem HeadBegins.eq_of_final {place : Nat} (h : HeadBegins bytes rest)
    (hends : Bytes.find? headEnd 0 bytes = some place)
    (hreads : Head.ofBytes (bytes.take (place + 4)) = .ok head)
    (hfinal : head.isInterim = false) : rest = bytes := by
  induction h with
  | front => rfl
  | behind _ hends' hreads' hinterim ih =>
    subst ih
    obtain rfl := Option.some.inj (hends.symm.trans hends')
    obtain rfl := Except.ok.inj (hreads.symm.trans hreads')
    exact absurd hinterim (Bool.eq_false_iff.1 hfinal)

/-- A head that is written and is at hand as a whole is not overlong, however long it is. -/
theorem Head.Legible.not_overlong (hl : head.Legible) (hfinal : head.isInterim = false) :
    ¬Overlong head.bytes := by
  rintro ⟨part, hbegins, -, hnone⟩
  have hfind := Head.find?_bytes hl.plain []
  have htake := head.take_bytes []
  rw [List.append_nil] at hfind htake
  have hreads : Head.ofBytes (head.bytes.take (head.bytes.length - 4 + 4)) = .ok head := by
    rw [htake]
    exact Head.ofBytes_bytes hl
  rw [hbegins.eq_of_final hfind hreads hfinal, hfind] at hnone
  cases hnone

/-- A head that is written goes beyond every length that it is longer than. -/
theorem Head.Legible.exceeds {length : Nat} (hl : head.Legible) (h : length < head.bytes.length) :
    Exceeds length head.bytes := by
  refine ⟨head.bytes, .front, h, ?_⟩
  intro place hplace
  have hfind := Head.find?_bytes hl.plain []
  rw [List.append_nil] at hfind
  obtain rfl := Option.some.inj (hfind.symm.trans hplace)
  omega

/-- The heads that begin in the front of some bytes begin there without the others too. -/
theorem HeadBegins.of_append (h : HeadBegins (bytes ++ more) rest)
    (hlength : more.length ≤ rest.length) :
    ∃ part, rest = part ++ more ∧ HeadBegins bytes part := by
  induction h with
  | front => exact ⟨bytes, rfl, .front⟩
  | @behind rest place head _ hends hreads hinterim ih =>
    have hplace := (Bytes.find?_add_length_le hends).2
    rw [Nat.zero_add, show headEnd.length = 4 from rfl] at hplace
    rw [List.length_drop] at hlength
    obtain ⟨part, rfl, hbegins⟩ := ih (by omega)
    rw [List.length_append] at hplace hlength
    have hle : place + 4 ≤ part.length := by omega
    have hfind : Bytes.find? headEnd 0 part = some place := by
      cases hpart : Bytes.find? headEnd 0 part with
      | none =>
        have hlt := Bytes.lt_of_find?_append hpart hends (by simp [headEnd])
        rw [show headEnd.length = 4 from rfl] at hlt
        omega
      | some found =>
        rw [Bytes.find?_append_of_some hpart] at hends
        exact hends
    rw [List.take_append_of_le_length hle] at hreads
    exact ⟨part.drop (place + 4), List.drop_append_of_le_length hle,
      hbegins.behind hfind hreads hinterim⟩

end Reply

/-! ### What an exchange refuses -/

section Reads

variable {now clock : Nat} {q u : Reply.Reader} {s t : Stream} {reading : Reading}

/-- A reader that has come to an end is not told otherwise by what is read later. -/
theorem Reply.Reader.exists_tooLarge_iff (hq : q.Placed) (hends : ∀ u, q.advance ≠ .wants u) :
    (∃ pieces, s.Yields now pieces ∧ (q.received pieces.flatten).advance.TooLarge) ↔
      q.advance.TooLarge := by
  constructor
  · rintro ⟨pieces, -, hlarge⟩
    refine (tooLarge_of_received hq hlarge).resolve_right ?_
    rintro ⟨u, hwants⟩
    exact hends u hwants
  · intro hlarge
    refine ⟨[], .none, ?_⟩
    rwa [List.flatten_nil, received_nil]

/-- A reader that asks for more finds a head too large after another read, or never. -/
theorem Reply.Reader.exists_tooLarge_iff_of_wants (hwants : q.advance = .wants u)
    (hread : s.read true now s.perRead = (reading, clock, t)) :
    (∃ pieces, s.Yields now pieces ∧ (q.received pieces.flatten).advance.TooLarge) ↔
      ∃ bytes, reading = .data bytes ∧ ∃ pieces, t.Yields clock pieces ∧
        ((q.received bytes).received pieces.flatten).advance.TooLarge := by
  constructor
  · rintro ⟨pieces, hpieces, hlarge⟩
    obtain rfl | ⟨bytes, rest, hdata, rfl, hrest⟩ := hpieces.cases hread
    · obtain ⟨buffer, hfailed⟩ := hlarge
      rw [List.flatten_nil, received_nil, hwants] at hfailed
      cases hfailed
    · refine ⟨bytes, hdata, rest, hrest, ?_⟩
      rwa [received_received]
  · rintro ⟨bytes, rfl, pieces, hpieces, hlarge⟩
    rw [received_received] at hlarge
    exact ⟨bytes :: pieces, .more hread hpieces, hlarge⟩

end Reads

namespace Exchange

open Reply.Reader (exists_tooLarge_iff exists_tooLarge_iff_of_wants)

/-- **A head is refused at the end of a read**, if the bytes that have come by then call for it. -/
theorem receive_headTooLarge_iff (link : Link) {q r : Reply.Reader} {s : Stream} (hq : q.Placed)
    (hfollows : ∀ y, (r.received y).advance = (q.received y).advance) (now : Nat) :
    (receive true now link r s).outcome = .finished (.error (.badReply .headTooLarge)) ↔
      ∃ pieces, s.Yields now pieces ∧ (q.received pieces.flatten).advance.TooLarge := by
  induction hweight : s.weight using Nat.strong_induction_on generalizing q r s now with
  | _ weight ih =>
    have hadvance : r.advance = q.advance := by simpa using hfollows []
    cases hv : q.advance with
    | complete head body delimited buffer =>
      rw [receive_of_complete (hadvance.trans hv), exists_tooLarge_iff hq (by simp [hv]), hv]
      exact iff_of_false nofun nofun
    | failed error buffer =>
      rw [receive_of_failed (hadvance.trans hv), exists_tooLarge_iff hq (by simp [hv]), hv]
      constructor
      · intro h
        cases h
        exact ⟨buffer, rfl⟩
      · rintro ⟨left, hfailed⟩
        cases hfailed
        rfl
    | wants u =>
      obtain ⟨reading, clock, t, hread⟩ :
          ∃ reading clock t, s.read true now s.perRead = (reading, clock, t) := ⟨_, _, _, rfl⟩
      rw [receive_of_wants (hadvance.trans hv), exists_tooLarge_iff_of_wants hv hread, hread]
      cases reading with
      | data bytes =>
        have hlt : t.weight < weight := hweight ▸ Stream.weight_lt_of_read_data s.perRead_pos hread
        have hfollows' : ∀ y, ((u.received bytes).received y).advance =
            ((q.received bytes).received y).advance := by
          intro y
          rw [Reply.Reader.received_received, Reply.Reader.received_received,
            ← Reply.Reader.advance_received_of_wants hq hv]
        refine (ih t.weight hlt (hq.received bytes) hfollows' clock rfl).trans ⟨?_, ?_⟩
        · intro hlarge
          exact ⟨bytes, rfl, hlarge⟩
        · rintro ⟨bytes, hdata, hlarge⟩
          cases hdata
          exact hlarge
      | failed error => exact iff_of_false nofun (by rintro ⟨bytes, hdata, -⟩; cases hdata)
      | waiting wake => exact iff_of_false nofun (by rintro ⟨bytes, hdata, -⟩; cases hdata)
      | ended =>
        refine iff_of_false ?_ (by rintro ⟨bytes, hdata, -⟩; cases hdata)
        obtain ⟨method, maxBody, stage, buffer⟩ := u
        cases stage <;> exact nofun

end Exchange

/-- **No read can jump over it.**  Where a head goes beyond the limit by more than one read brings,
there is a read after which more of it is at hand than there may be, and its end is not. -/
theorem Stream.exists_overlong {buffer : Bytes} {s : Stream} (now : Nat)
    (h : Reply.Exceeds (max buffer.length (Reply.maxHead + s.perRead)) (buffer ++ s.delivered)) :
    ∃ pieces, s.Yields now pieces ∧ Reply.Overlong (buffer ++ pieces.flatten) := by
  obtain ⟨rest, hbegins, hlength, hends⟩ := h
  obtain ⟨before, hbefore⟩ : ∃ before, before + rest.length = (buffer ++ s.delivered).length :=
    ⟨_, Nat.sub_add_cancel hbegins.length_le⟩
  rw [List.length_append] at hbefore
  -- The head begins after so many bytes; here are reads that bring enough of it, and not its end.
  obtain ⟨pieces, hpieces, hlow, hhigh⟩ : ∃ pieces, s.Yields now pieces ∧
      before + Reply.maxHead < buffer.length + pieces.flatten.length ∧
      buffer.length + pieces.flatten.length ≤
        before + max buffer.length (Reply.maxHead + s.perRead) := by
    by_cases hbuffer : before + Reply.maxHead < buffer.length
    · refine ⟨[], .none, Nat.lt_of_lt_of_le hbuffer (Nat.le_add_right _ _), ?_⟩
      show buffer.length + 0 ≤ _
      omega
    · have hpos : 0 < before + Reply.maxHead + 1 - buffer.length := by omega
      have hle : before + Reply.maxHead + 1 - buffer.length ≤ s.delivered.length := by omega
      obtain ⟨pieces, hpieces, hlow, hhigh⟩ := exists_yields hpos hle now
      exact ⟨pieces, hpieces, by omega, by omega⟩
  obtain ⟨more, hmore⟩ := hpieces.delivered
  have hdelivered := congrArg List.length hmore
  rw [List.length_append] at hdelivered
  rw [hmore, ← List.append_assoc] at hbegins
  obtain ⟨part, rfl, hpart⟩ := hbegins.of_append (by omega)
  rw [List.length_append] at hbefore
  refine ⟨pieces, hpieces, part, hpart, by omega, ?_⟩
  cases hfind : Bytes.find? Reply.headEnd 0 part with
  | none => rfl
  | some place =>
    have hlate := hends place (Bytes.find?_append_of_some hfind more)
    have hplace := (Bytes.find?_add_length_le hfind).2
    rw [show Reply.headEnd.length = 4 from rfl] at hplace
    omega

namespace Link

variable {now : Nat} {link : Link} {request : Outgoing} {s t : Stream} {bytes : Bytes}

/-- A head is refused at the end of a read. -/
theorem send_refuses_iff (hencode : request.encode? link.viaProxy = .ok bytes)
    (hwrite : Exchange.writeAll bytes s = ([], none, t)) (hflush : t.flushError = none) :
    (link.send true now request s).outcome = .finished (.error (.badReply .headTooLarge)) ↔
      ∃ pieces, t.flush.2.Yields now pieces ∧ Reply.Overlong (link.buffer ++ pieces.flatten) := by
  have hstart := Reply.Reader.placed_start request.method link.maxBody link.buffer
  rw [send_of_written hencode hwrite hflush,
    Exchange.receive_headTooLarge_iff _ hstart (fun _ => rfl)]
  refine exists_congr fun pieces => and_congr_right fun _ => ?_
  exact Reply.Reader.tooLarge_advance_start

/-- **Cuts do not matter for what is not refused so.** -/
theorem settled_of_not_refused (hencode : request.encode? link.viaProxy = .ok bytes)
    (hwrite : Exchange.writeAll bytes s = ([], none, t)) (hflush : t.flushError = none)
    (h : (link.send true now request s).outcome ≠
      .finished (.error (.badReply .headTooLarge))) :
    Exchange.Settled { link with reusable := false } t.flush.2.ending
      (Reply.Reader.start request.method link.maxBody
        (link.buffer ++ t.flush.2.delivered)).advance
      (link.send true now request s) := by
  have hstart := Reply.Reader.placed_start request.method link.maxBody link.buffer
  rw [send_of_written hencode hwrite hflush] at h ⊢
  refine Exchange.receive_settled_of_follows hstart (fun _ => rfl) now ?_
  intro pieces rest hpieces hrest
  rw [hrest, ← Reply.Reader.received_received]
  refine Reply.Reader.advance_received_of_ne (hstart.received pieces.flatten) ?_ rest
  intro buffer hfailed
  exact h ((Exchange.receive_headTooLarge_iff _ hstart (fun _ => rfl) now).2
    ⟨pieces, hpieces, buffer, hfailed⟩)

/-! ### A longer head that is taken -/

/-- **A longer head is taken** when no read ends beyond the limit and before the end of the head. -/
theorem send_takes_late {head : Reply.Head} (hl : head.Legible) (hfinal : head.isInterim = false)
    (hbodiless : Reply.Bodiless request.method head)
    (hencode : request.encode? link.viaProxy = .ok bytes)
    (hwrite : Exchange.writeAll bytes s = ([], none, t)) (hflush : t.flushError = none)
    (hbuffer : link.buffer = []) (hreads : t.reads = [.data head.bytes])
    (hlate : ∀ length, t.perRead ∣ length → Reply.maxHead < length → head.bytes.length ≤ length) :
    (link.send true now request s).outcome = .finished (.ok (head.withBody [])) := by
  have hne := head.bytes_ne_nil
  have htaken : (link.send true now request s).outcome ≠
      .finished (.error (.badReply .headTooLarge)) := by
    rw [Ne, send_refuses_iff hencode hwrite hflush, hbuffer]
    rintro ⟨pieces, hpieces, hoverlong⟩
    rw [List.nil_append] at hoverlong
    -- So much has come only with the end of the head.
    have hall : pieces.flatten = head.bytes :=
      hpieces.flatten_eq_of_piece hreads hne hlate hoverlong.lt_length
    exact hl.not_overlong hfinal (hall ▸ hoverlong)
  have hsettled := settled_of_not_refused hencode hwrite hflush htaken
  have hstep := Reply.Reader.step_start hl request.method link.maxBody []
  rw [Reply.Reader.afterHead_of_bodiless hfinal hbodiless, List.append_nil] at hstep
  have hdelivered : t.flush.2.delivered = head.bytes := Stream.delivered_of_piece hreads hne
  rw [hbuffer, List.nil_append, hdelivered, Reply.Reader.advance_of_stop hstep] at hsettled
  obtain ⟨left, houtcome, -⟩ := hsettled
  exact houtcome

/-- A head with a field of so many letters. -/
def padded (count : Nat) : Reply.Head :=
  ⟨204, "No Content", "HTTP/1.1", [⟨"X", String.ofList (List.replicate count 'x')⟩]⟩

theorem padded_legible (count : Nat) : (padded count).Legible := by
  have hversion : "HTTP/1.".toList <+: "HTTP/1.1".toList := by decide
  have hversion' : ∀ c ∈ "HTTP/1.1".toList, c ≠ ' ' ∧ c ≠ '\r' :=
    List.all_iff_forall_prop.1 (by decide)
  have hreason : ∀ c ∈ "No Content".toList, c ≠ '\r' := List.all_iff_forall_prop.1 (by decide)
  have hname : ∀ c ∈ "X".toList, c ≠ ':' ∧ c ≠ '\r' := List.all_iff_forall_prop.1 (by decide)
  have hletters : ∀ c ∈ (String.ofList (List.replicate count 'x')).toList, c = 'x' := by
    rw [String.toList_ofList]
    exact fun c hc => List.eq_of_mem_replicate hc
  refine ⟨hversion, hversion', by simp [padded], by simp [padded], hreason, ?_⟩
  rw [padded, List.forall_mem_singleton]
  refine ⟨hname, show Blank.trim "X" = "X" by decide, ?_, Blank.trim_eq_self ?_⟩
  · intro c hc
    rw [hletters c hc]
    decide
  · intro c hc
    rw [hletters c hc]
    decide

theorem length_padded (count : Nat) : (padded count).bytes.length = count + 32 := by
  have hdigits : (Numeral.decimal 204).toList = ['2', '0', '4'] := by decide
  have htext : (padded count).allLines.flatMap Reply.Head.closed ++ ['\r', '\n'] =
      "HTTP/1.1 204 No Content\r\nX: ".toList ++
        (List.replicate count 'x' ++ "\r\n\r\n".toList) := by
    simp [padded, Reply.Head.allLines, Reply.Head.statusLine, Reply.Head.fieldLine,
      Reply.Head.closed, hdigits]
  have hfront : ("HTTP/1.1 204 No Content\r\nX: ".toList.flatMap
      String.utf8EncodeChar).length = 28 := by decide
  have hend : ("\r\n\r\n".toList.flatMap String.utf8EncodeChar).length = 4 := by decide
  have hletters : ((List.replicate count 'x').flatMap String.utf8EncodeChar).length = count := by
    have hone : 'x'.utf8Size = 1 := by decide
    simp [List.length_flatMap, hone]
  rw [Reply.Head.bytes, htext, Utf8.encode, String.toList_ofList, List.flatMap_append,
    List.flatMap_append, List.length_append, List.length_append, hfront, hend, hletters]
  omega

theorem isInterim_padded (count : Nat) : (padded count).isInterim = false := rfl

theorem bodiless_padded (method : Method) (count : Nat) :
    Reply.Bodiless method (padded count) := .inr (.inl rfl)

/-- **Up to one usual read beyond the limit a head is taken** that comes in reads of that length. -/
theorem send_takes_padded {count : Nat} (h : count + 32 ≤ Reply.maxHead + usualPerRead) :
    (smallLink.send true 0 pageRequest { reads := [.data (padded count).bytes] }).outcome =
      .finished (.ok ((padded count).withBody [])) := by
  have hwritten := Exchange.writeAll_of_willing (s := { reads := [.data (padded count).bytes] }) rfl
    (Utf8.encode (pageRequest.headText false "example.com") ++ [])
  refine send_takes_late (padded_legible count) (isInterim_padded count) (bodiless_padded _ count)
    encode_pageRequest hwritten rfl rfl rfl ?_
  rintro length ⟨reads, rfl⟩ hlength
  rw [length_padded]
  change 16 * 4096 < 4096 * reads at hlength
  change count + 32 ≤ 16 * 4096 + 4096 at h
  show count + 32 ≤ 4096 * reads
  omega

/-! ### The limit on a head -/

/-- **The limit on a head.**  Let the request be written and flushed.  Then a head is refused as too
large exactly if after some read more of it is at hand than a head may have, and its end is not.
Only a head that goes beyond the limit is refused so; and each is that goes beyond the limit by more
than one read brings, and beyond what was left from before.  What is not refused so is read as all
the bytes together say. -/
theorem send_headTooLarge_iff (hencode : request.encode? link.viaProxy = .ok bytes)
    (hwrite : Exchange.writeAll bytes s = ([], none, t)) (hflush : t.flushError = none) :
    let p := link.send true now request s
    let refused := p.outcome = .finished (.error (.badReply .headTooLarge))
    let arrived := link.buffer ++ t.flush.2.delivered
    (refused ↔ ∃ pieces, t.flush.2.Yields now pieces ∧
      Reply.Overlong (link.buffer ++ pieces.flatten)) ∧
    (refused → Reply.Exceeds Reply.maxHead arrived) ∧
    (Reply.Exceeds (max link.buffer.length (Reply.maxHead + t.perRead)) arrived → refused) ∧
    (¬refused → Exchange.Settled { link with reusable := false } t.flush.2.ending
      (Reply.Reader.start request.method link.maxBody arrived).advance p) := by
  intro p refused arrived
  have hrefused : refused ↔ ∃ pieces, t.flush.2.Yields now pieces ∧
      Reply.Overlong (link.buffer ++ pieces.flatten) := send_refuses_iff hencode hwrite hflush
  refine ⟨hrefused, ?_, ?_, settled_of_not_refused hencode hwrite hflush⟩
  · intro h
    obtain ⟨pieces, hpieces, hoverlong⟩ := hrefused.1 h
    obtain ⟨more, hmore⟩ := hpieces.delivered
    have hexceeds := hoverlong.exceeds more
    rw [List.append_assoc, ← hmore] at hexceeds
    exact hexceeds
  · intro h
    exact hrefused.2 (Stream.exists_overlong now h)

/-- A head beyond the limit is refused when its bytes come one by one. -/
theorem send_headTooLarge_bytewise :
    let s : Stream :=
      { reads := [.data (padded 66000).bytes], perRead := 1, perRead_pos := Nat.one_pos }
    (smallLink.send true 0 pageRequest s).outcome =
      .finished (.error (.badReply .headTooLarge)) := by
  intro s
  have hwritten := Exchange.writeAll_of_willing (s := s) rfl
    (Utf8.encode (pageRequest.headText false "example.com") ++ [])
  have hlong : Reply.maxHead + 1 < (padded 66000).bytes.length := by
    rw [length_padded]
    decide
  have hbound : max 0 (Reply.maxHead + 1) = Reply.maxHead + 1 := by decide
  have hne : (padded 66000).bytes ≠ [] := List.length_pos_iff.1 (Nat.zero_lt_of_lt hlong)
  refine (send_headTooLarge_iff encode_pageRequest hwritten rfl).2.2.1 ?_
  rw [show smallLink.buffer = [] from rfl, Stream.delivered_of_piece rfl hne,
    List.nil_append (padded 66000).bytes]
  show Reply.Exceeds (max 0 (Reply.maxHead + 1)) _
  rw [hbound]
  exact (padded_legible 66000).exceeds hlong

/-- **The same head is taken** when it comes in reads of the usual length. -/
theorem send_headTooLarge_fails :
    Reply.maxHead < (padded 66000).bytes.length ∧
      (smallLink.send true 0 pageRequest { reads := [.data (padded 66000).bytes] }).outcome =
        .finished (.ok ((padded 66000).withBody [])) := by
  refine ⟨?_, send_takes_padded (by decide)⟩
  rw [length_padded]
  decide

end Link

end HttpExchange
