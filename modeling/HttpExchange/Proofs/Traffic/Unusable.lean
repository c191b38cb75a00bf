import HttpExchange.Proofs.Link.Marked
import HttpExchange.Proofs.Link.Receive
import HttpExchange.Proofs.Traffic.Proxy
import HttpExchange.Proofs.Traffic.Reset
import HttpExchange.Proofs.Traffic.Strokes

/-!
# A link that may not be used again

An exchange takes the use of its link away and gives it back only with a reply that was read to its
end (`Exchange.Earned`), and whose end was marked (`Exchange.Marks`).  So a link that may not be
used stays with the one who holds it, unfit as it is, or is gone (`Unfit`), until an exchange on it
ends with a reply.  Nothing keeps its holder from sending another request on it, and that may end
with a reply, which need not be to that request.

* `marked_stroke`, `marked_strokes` — of bodies that are not read until the stream ends;
* `unfit_stroke`, `unfit_strokes` — what a stroke and a run preserve;
* `strokes_unusable` — no other caller gets the link, and no shelf;
* `strokes_unusable_fails` — an exchange is given up, and the next takes its reply: the link becomes
  fit again, and somebody else gets it.
-/

namespace HttpExchange

namespace Exchange

/-- The use of a link is given back only together with a reply that was read to its end. -/
def Earned (p : Progress) : Prop :=
  p.link.reusable = true → ∃ (head : Reply.Head) (body : Bytes),
    p.outcome = .finished (.ok (head.withBody body)) ∧ head.version = "HTTP/1.1" ∧
      head.asksToClose = false ∧ head.status ≠ 101 ∧ p.link.buffer = []

theorem Earned.completed (link : Link) (now : Nat) (head : Reply.Head) (body : Bytes)
    (delimited : Bool) (buffer : Bytes) (s : Stream) :
    Earned ⟨.finished (.ok (head.withBody body)), now,
      { link with buffer, reusable := leavesReusable head delimited buffer }, s⟩ := by
  intro h
  obtain ⟨-, hkeeps, hversion, hstatus, hbuffer⟩ := leavesReusable_iff.1 h
  exact ⟨head, body, rfl, hversion, hkeeps, hstatus, hbuffer⟩

theorem Earned.unfit {p : Progress} (h : p.link.reusable = false) : Earned p := by
  intro hreusable
  rw [h] at hreusable
  cases hreusable

theorem receive_earned (patient : Bool) (now : Nat) {link : Link} (h : link.reusable = false)
    (r : Reply.Reader) (s : Stream) : Earned (receive patient now link r s) := by
  fun_induction receive patient now link r s with
  | case1 => exact .completed _ _ _ _ _ _ _
  | case3 _ _ _ _ _ _ _ _ _ ih => exact ih
  | case6 => exact .completed _ _ _ _ _ _ _
  | _ => exact .unfit h

theorem run_earned (patient : Bool) (now : Nat) {link : Link} (h : link.reusable = false)
    (s : Stream) (x : Exchange) : Earned (x.run patient now link s) := by
  cases x with
  | sending method rest =>
    rw [run]
    split
    · exact .unfit h
    · exact .unfit h
    · split
      · exact .unfit h
      · exact receive_earned patient now h _ _
  | receiving method stage => exact receive_earned patient now h _ _

theorem move_earned (now : Nat) {link : Link} (h : link.reusable = false) (s : Stream)
    (x : Exchange) : Earned (x.move now link s).progress := by
  have hmoved := moved now link s x
  generalize x.move now link s = m at hmoved ⊢
  cases hmoved with
  | completed => exact .completed _ _ _ _ _ _ _
  | ended => exact .completed _ _ _ _ _ _ _
  | _ => exact .unfit h

end Exchange

theorem Link.begun_earned (now : Nat) (link : Link) (request : Outgoing) (s : Stream) :
    Exchange.Earned (link.begun now request s).progress := by
  rw [begun, begin]
  cases request.encode? link.viaProxy <;> exact .unfit rfl

theorem Link.send_earned (patient : Bool) (now : Nat) (link : Link) (request : Outgoing)
    (s : Stream) : Exchange.Earned (link.send patient now request s) := by
  rw [send, begin]
  cases request.encode? link.viaProxy with
  | error error => exact .unfit rfl
  | ok bytes => exact Exchange.run_earned patient now rfl _ _

/-- The method of the request that a stroke sends, or goes on with. -/
def Stroke.method? (x : Option Exchange) : Stroke → Option Method
  | .action (.caller _ (.send request)) => some request.method
  | .begin _ request => some request.method
  | _ => x.map Exchange.method

namespace Traffic

variable {t : Traffic} {i j id : Nat} {c d : Caller}

/-- A stroke ends an exchange of a caller with a reply. -/
def EndsWith (t : Traffic) (i : Nat) (s : Stroke) (reply : Reply) : Prop :=
  ∃ c h x p, s.number? = some i ∧ t.callers[i]? = some c ∧ c.stage = .holding h x ∧
    t.progress? h x s = some p ∧ p.outcome = .finished (.ok reply)

/-- A stroke of a caller is about a request of that method. -/
def Asks (t : Traffic) (i : Nat) (s : Stroke) (method : Method) : Prop :=
  ∃ c h x, t.callers[i]? = some c ∧ c.stage = .holding h x ∧ s.method? x = some method

/-- A link is in the hand of a caller and may not be used again, or it is in no place. -/
def Unfit (t : Traffic) (i id : Nat) : Prop :=
  id < t.broker.network.streams.size ∧ (id ∈ t.places →
    ∃ c h x, t.callers[i]? = some c ∧ c.stage = .holding h x ∧ h.link.id = id ∧
      h.link.reusable = false)

theorem progress_earned {h : Handle} {x : Option Exchange} {s : Stroke} {p : Exchange.Progress}
    (hinUse : x.isSome = true → h.link.reusable = false) (hp : t.progress? h x s = some p) :
    Exchange.Earned p := by
  cases progresses hp with
  | sent => exact Link.send_earned _ _ _ _ _
  | resumed => exact Exchange.run_earned _ _ (hinUse rfl) _ _
  | began => exact Link.begun_earned _ _ _ _
  | moved => exact Exchange.move_earned _ (hinUse rfl) _ _

/-! ### Replies with a marked end -/

/-- Where exchanges wait in a body that is not read until the stream ends, the head has marked its
end. -/
def Marked (t : Traffic) : Prop :=
  ∀ c ∈ t.callers, ∀ h x, c.stage = .holding h (some x) → x.Marked

theorem progress_marks {h : Handle} {x : Option Exchange} {s : Stroke} {p : Exchange.Progress}
    (hinUse : x.isSome = true → h.link.reusable = false) (hx : ∀ y, x = some y → y.Marked)
    (hp : t.progress? h x s = some p) :
    ∃ method, s.method? x = some method ∧ Exchange.Marks method p := by
  cases progresses hp with
  | sent => exact ⟨_, rfl, Link.send_marks _ _ _ _ _⟩
  | resumed i x => exact ⟨_, rfl, Exchange.run_marks _ _ (hinUse rfl) (hx x rfl) _⟩
  | began => exact ⟨_, rfl, Link.begun_marks _ _ _ _⟩
  | moved i x => exact ⟨_, rfl, Exchange.move_marks _ (hinUse rfl) (hx x rfl) _⟩

/-- Whoever holds a link has an exchange of that kind, or none. -/
theorem Marked.of_holding (ht : t.Marked) (hc : t.callers[i]? = some c) {h : Handle}
    {x : Option Exchange} (hstage : c.stage = .holding h x) (y : Exchange) (hy : x = some y) :
    y.Marked :=
  ht c (List.mem_of_getElem? hc) h y (hy ▸ hstage)

/-- **A stroke leaves it so.** -/
theorem marked_stroke (hs : t.Sound) (ht : t.Marked) (s : Stroke) : (t.stroke s).Marked := by
  intro d hd held y hstage
  obtain ⟨j, hj⟩ := List.getElem?_of_mem hd
  obtain hold | hopening | ⟨-, c, hc, hpasses⟩ := callers_stroke hs s hj
  · exact ht.of_holding hold hstage y rfl
  · rw [hstage] at hopening
    cases hopening
  · rw [hstage] at hpasses
    have hfits := hs.fits c (List.mem_of_getElem? hc)
    have hmarked := ht c (List.mem_of_getElem? hc)
    generalize c.stage = before, hafter : Stage.holding held (some y) = after
      at hpasses hfits hmarked
    cases hpasses with
    | stays => exact hmarked held y hafter.symm
    | @touched h x p hp hleaves =>
      obtain ⟨_, -, -, hinUse⟩ := hfits
      obtain ⟨method, -, hmarks⟩ := progress_marks hinUse (fun z hz => hmarked h z (hz ▸ rfl)) hp
      injection hafter with _ houtcome
      cases hwaits : p.outcome with
      | finished result =>
        rw [hwaits] at houtcome
        cases houtcome
      | waiting z wake =>
        rw [hwaits] at houtcome
        cases houtcome
        exact hmarks.waits y wake hwaits
    | without _ hnone =>
      rw [← hafter] at hnone
      cases hnone
    | _ => cases hafter

/-- **So does a run of strokes.** -/
theorem marked_strokes (hs : t.Sound) (ht : t.Marked) (list : List Stroke) :
    (t.strokes list).Marked := by
  induction list generalizing t with
  | nil => exact ht
  | cons s rest ih => exact ih (sound_stroke hs s) (marked_stroke hs ht s)

/-! ### Until an exchange ends with a reply -/

/-- A link that may not be used is on no shelf, and in no other hand. -/
theorem Unfit.apart (h : t.Unfit i id) (hs : t.Sound) :
    (∀ link ∈ t.broker.pool.idle, link.id ≠ id) ∧
      ∀ j d, j ≠ i → t.callers[j]? = some d → d.stage.link? ≠ some id := by
  refine ⟨fun link hlink heq => ?_, fun j d hne hd hlink => ?_⟩
  · obtain ⟨c, h, x, hc, hstage, hid, -⟩ :=
      h.2 (List.mem_append_left _ (List.mem_map.2 ⟨link, hlink, heq⟩))
    exact hs.id_ne_of_idle hc (by rw [hstage]; exact congrArg some hid) hlink heq
  · obtain ⟨c, h, x, hc, hstage, hid, -⟩ := h.2 (List.mem_append_right _
      (List.mem_filterMap.2 ⟨d, List.mem_of_getElem? hd, hlink⟩))
    exact hs.link_ne hc hd hne.symm (by rw [hstage]; exact congrArg some hid) hlink

/-- The caller that has it in hand holds it, unfit as it is. -/
theorem Unfit.holding (hunfit : t.Unfit i id) (hd : t.callers[i]? = some d) {h : Handle}
    (hh : d.stage.handle? = some h) (hid : h.link.id = id) :
    (∃ x, d.stage = .holding h x) ∧ h.link.reusable = false := by
  obtain ⟨c, held, x, hc, hstage, -, hreusable⟩ := hunfit.2 (hid ▸ mem_places_of_handle hd hh)
  cases hc.symm.trans hd
  rw [hstage] at hh
  cases hh
  exact ⟨⟨x, hstage⟩, hreusable⟩

/-- **It stays so**, until an exchange ends with a reply. -/
theorem unfit_stroke (hs : t.Sound) (hunfit : t.Unfit i id) {s : Stroke}
    (hends : ∀ reply, ¬ t.EndsWith i s reply) : (t.stroke s).Unfit i id := by
  refine ⟨Nat.lt_of_lt_of_le hunfit.1 (later_stroke hs s).streams, fun hid => ?_⟩
  have hbefore := (mem_places_stroke hs s hid).resolve_right (Nat.not_le_of_lt hunfit.1)
  obtain ⟨c, h, x, hc, hstage, rfl, hreusable⟩ := hunfit.2 hbefore
  by_cases hnumber : s.number? = some i
  · obtain ⟨stage, hafter, hpasses⟩ := passes_stroke hs hnumber hc
    obtain ⟨_, -, -, hinUse⟩ := hs.fits_stage hc hstage
    rw [hstage] at hpasses
    cases hpasses with
    | stays => exact ⟨_, h, x, hafter, rfl, rfl, hreusable⟩
    | @touched _ _ p hp hleaves =>
      refine ⟨_, _, _, hafter, rfl, hleaves.id_eq, ?_⟩
      cases hfit : p.link.reusable with
      | false => rfl
      | true =>
        obtain ⟨head, body, houtcome, -⟩ := progress_earned hinUse hp hfit
        exact absurd ⟨c, h, x, p, hnumber, hc, hstage, hp, houtcome⟩ (hends _)
    | abandoned => exact ⟨_, h, none, hafter, rfl, rfl, hreusable⟩
    | parted => exact absurd hid (not_mem_places_of_gone hs hc hstage hreusable hnumber hafter)
    | without hempty => exact absurd rfl (hempty h x)
  · obtain hsame | ⟨hnone, -⟩ := callers_stroke_of_ne hs hnumber
    · exact ⟨c, h, x, hsame ▸ hc, hstage, rfl, hreusable⟩
    · cases hnone.symm.trans hc

/-- **What makes it fit again** is the end of an exchange with a reply. -/
theorem Unfit.earned (hunfit : t.Unfit i id) (hs : t.Sound) (ht : t.Marked) {s : Stroke}
    (hd : (t.stroke s).callers[i]? = some d) {held : Handle} {y : Option Exchange}
    (hstage : d.stage = .holding held y) (hid : held.link.id = id)
    (hreusable : held.link.reusable = true) :
    ∃ (head : Reply.Head) (body : Bytes) (method : Method),
      t.EndsWith i s (head.withBody body) ∧ t.Asks i s method ∧ Reply.EndMarked method head ∧
      head.version = "HTTP/1.1" ∧ head.asksToClose = false ∧ head.status ≠ 101 ∧
        held.link.buffer = [] := by
  have hnot {c : Caller} {h : Handle} {p : Prop} (hc : t.callers[i]? = some c)
      (hh : c.stage.handle? = some h) (hid : h.link.id = id) (hfit : h.link.reusable = true) :
      p := by
    rw [(hunfit.holding hc hh hid).2] at hfit
    cases hfit
  obtain hold | hnone | ⟨hnumber, c, hc, hpasses⟩ := callers_stroke hs s hd
  · exact hnot hold (by rw [hstage]; rfl) hid hreusable
  · rw [hstage] at hnone
    cases hnone
  · rw [hstage] at hpasses
    have hfits := hs.fits c (List.mem_of_getElem? hc)
    generalize hbefore : c.stage = before at hpasses hfits
    cases hpasses with
    | stays => exact hnot hc (by rw [hbefore]; rfl) hid hreusable
    | looked => exact hnot hc (by rw [hbefore]; rfl) hid hreusable
    | connected hnumber => exact absurd (hid ▸ hnumber) (Nat.ne_of_lt hunfit.1)
    | @touched h x p hp hleaves =>
      obtain ⟨_, -, -, hinUse⟩ := hfits
      obtain ⟨head, body, houtcome, hversion, hkeeps, hstatus, hbuffer⟩ :=
        progress_earned hinUse hp hreusable
      obtain ⟨method, hmethod, hmarks⟩ := progress_marks hinUse (ht.of_holding hc hbefore) hp
      exact ⟨head, body, method, ⟨c, h, x, p, hnumber, hc, hbefore, hp, houtcome⟩,
        ⟨c, h, x, hc, hbefore, hmethod⟩, hmarks.frees hreusable head body houtcome, hversion,
        hkeeps, hstatus, hbuffer⟩
    | abandoned => exact hnot hc (by rw [hbefore]; rfl) hid hreusable
    | without _ hnone => cases hnone

theorem unfit_strokes (hs : t.Sound) (h : t.Unfit i id) {list : List Stroke}
    (hends : ∀ first s rest, list = first ++ s :: rest →
      ∀ reply, ¬ (t.strokes first).EndsWith i s reply) : (t.strokes list).Unfit i id := by
  induction list generalizing t with
  | nil => exact h
  | cons s rest ih =>
    refine ih (sound_stroke hs s) (unfit_stroke hs h (hends [] s rest rfl)) ?_
    intro first next more heq
    exact hends (s :: first) next more (by rw [heq]; rfl)

/-- **A link that may not be used again** stays where it is, or is gone, until an exchange on it
ends with a reply.  Its holder may let others act, send on it, fail or give up, at every place where
an exchange can wait: as long as no exchange of its own ends with a reply, the link may not be used
again, is on no shelf and in nobody else's hand, and is not taken out.  And what gives the use of it
back is the end of an exchange with an HTTP/1.1 reply whose end is marked, that does not ask to
close, and with nothing left over. -/
theorem strokes_unusable (routing : Routing) (maxIdlePerHost idleTimeout : Nat) (network : Network)
    (before after : List Stroke) {i : Nat} {c : Caller} {h : Handle} {x : Option Exchange} :
    let t := (start routing maxIdlePerHost idleTimeout network).strokes before
    let v := t.strokes after
    t.callers[i]? = some c → c.stage = .holding h x → h.link.reusable = false →
    (∀ first s rest, after = first ++ s :: rest →
      ∀ reply, ¬ (t.strokes first).EndsWith i s reply) →
    (∀ d held y, v.callers[i]? = some d → d.stage = .holding held y → held.link.id = h.link.id →
      held.link.reusable = false) ∧
    (∀ link ∈ v.broker.pool.idle, link.id ≠ h.link.id) ∧
    (∀ j d, j ≠ i → v.callers[j]? = some d → d.stage.link? ≠ some h.link.id) ∧
    (∀ clock d link, (v.broker.pool.checkout clock d).1 = some link → link.id ≠ h.link.id) ∧
    ∀ s d held y, (v.stroke s).callers[i]? = some d → d.stage = .holding held y →
      held.link.id = h.link.id → held.link.reusable = true →
      ∃ (head : Reply.Head) (body : Bytes) (method : Method),
        v.EndsWith i s (head.withBody body) ∧ v.Asks i s method ∧ Reply.EndMarked method head ∧
        head.version = "HTTP/1.1" ∧ head.asksToClose = false ∧ head.status ≠ 101 ∧
          held.link.buffer = [] := by
  intro t v hc hstage hreusable hends
  have hstart := sound_start routing maxIdlePerHost idleTimeout network
  have ht : t.Sound := sound_strokes hstart before
  have hlt := ht.numbered _ (mem_places_of_handle hc (by rw [hstage]; rfl))
  have hunfit : v.Unfit i h.link.id :=
    unfit_strokes ht ⟨hlt, fun _ => ⟨c, h, x, hc, hstage, rfl, hreusable⟩⟩ hends
  have hv : v.Sound := sound_strokes ht after
  have hmarked : v.Marked :=
    marked_strokes ht (marked_strokes hstart (fun _ hnobody => by cases hnobody) before) after
  obtain ⟨hidle, hothers⟩ := hunfit.apart hv
  refine ⟨fun d held y hd hholds hid => ?_, hidle, hothers, fun clock d link hfound => ?_,
    fun s d held y hd hholds hid hfit => hunfit.earned hv hmarked hd hholds hid hfit⟩
  · exact (hunfit.holding hd (by rw [hholds]; rfl) hid).2
  · have hlink := (v.broker.pool.checkout_takesOut clock d).mem_idleTo_of_found hfound
    exact hidle link (Pool.mem_idle_iff.2 ⟨d, hlink⟩)

/-! ### An answer that comes late -/

/-- A reply without a body. -/
def noContent : Bytes := "HTTP/1.1 204 No Content\r\n\r\n".toList.map fun c => c.toNat.toUInt8

/-- A far end that sends it when it has heard twice. -/
def lateEnd : Stream := { reads := [.afterFlush 2, .data noContent, .hang] }

/-- The request for the page. -/
def pageRequest : Outgoing := { url := page }

/-- The request as written. -/
def pageBytes : Bytes := Utf8.encode (pageRequest.headText false "example.com") ++ pageRequest.body

/-- A stream after the request has been written and flushed. -/
def heard (s : Stream) : Stream :=
  { s with written := s.written ++ pageBytes, flushes := s.flushes + 1 }

/-- The link, which may not be used again, or may. -/
def pageLink (reusable : Bool) : Link := { (pageHandle 0).link with reusable }

theorem send_page (reusable : Bool) {s : Stream} (hwrites : s.writes = [])
    (hflush : s.flushError = none) :
    (pageLink reusable).send false 0 pageRequest s =
      Exchange.receive false 0 (pageLink false) (.start .get Reply.defaultMaxBody [])
        (heard s) := by
  have hencode : pageRequest.encode? (pageLink reusable).viaProxy = .ok pageBytes := rfl
  exact Link.send_of_written hencode (Exchange.writeAll_of_willing hwrites pageBytes) hflush

theorem advance_start_nil (method : Method) (maxBody : Nat) :
    (Reply.Reader.start method maxBody []).advance = .wants (.start method maxBody []) :=
  Reply.Reader.advance_of_stop rfl

theorem send_page_late : (pageLink true).send false 0 pageRequest lateEnd =
    ⟨.waiting (.receiving .get (.head 0)) none, 0, pageLink false, heard lateEnd⟩ := by
  rw [send_page true rfl rfl, Exchange.receive_of_wants (advance_start_nil _ _),
    Stream.read_afterFlush _ _ _ rfl, if_neg (by decide)]
  rfl

theorem advance_noContent : (Reply.Reader.start .get Reply.defaultMaxBody noContent).advance =
    .complete ⟨204, "No Content", "HTTP/1.1", []⟩ [] true [] :=
  Reply.Reader.advance_of_stop (by decide +kernel)

theorem send_page_again : (pageLink false).send false 0 pageRequest (heard lateEnd) =
    ⟨.finished (.ok ⟨204, "No Content", "HTTP/1.1", [], []⟩), 0, pageLink true,
      { heard (heard lateEnd) with reads := [.hang] }⟩ := by
  rw [send_page false rfl rfl, Exchange.receive_of_wants (advance_start_nil _ _),
    Stream.read_afterFlush _ _ _ rfl, if_pos (by decide),
    Stream.read_piece _ _ _ rfl (by decide) (by decide)]
  exact Exchange.receive_of_complete advance_noContent

/-- Somebody who has asked for the page. -/
def pageCaller (stage : Stage) : Caller := ⟨{}, pageRequest, stage⟩

/-- Someone holds a link to that far end. -/
def atHand : Traffic := (start {} 8 90000 { dials := [.opens lateEnd] }).run (visit 0 {} page)

/-- The handle on it. -/
def pageHold (reusable : Bool) : Handle := { pageHandle 0 with link := pageLink reusable }

theorem stroke_send_late : atHand.stroke (.action (.caller 0 (.send pageRequest))) =
    atHand.touch 0 (pageCaller (.holding (pageHold true) none)) (pageHold true)
      ⟨.waiting (.receiving .get (.head 0)) none, 0, pageLink false, heard lateEnd⟩ := by
  have hc : atHand.callers[0]? = some (pageCaller (.holding (pageHold true) none)) := by decide
  rw [stroke, step_send hc rfl]
  exact congrArg (atHand.touch 0 _ (pageHold true)) send_page_late

/-- The first exchange is given up. -/
def givenUp : Traffic :=
  (atHand.touch 0 (pageCaller (.holding (pageHold true) none)) (pageHold true)
    ⟨.waiting (.receiving .get (.head 0)) none, 0, pageLink false, heard lateEnd⟩).stroke
      (.action (.caller 0 .abandon))

theorem callers_givenUp :
    givenUp.callers[0]? = some (pageCaller (.holding (pageHold false) none)) := by decide

/-- How the second exchange ends. -/
def lateReply : Exchange.Progress :=
  ⟨.finished (.ok ⟨204, "No Content", "HTTP/1.1", [], []⟩), 0, pageLink true,
    { heard (heard lateEnd) with reads := [.hang] }⟩

theorem stream_givenUp : givenUp.broker.network.stream 0 = heard lateEnd := by rfl

theorem send_givenUp : (pageHold false).link.send false givenUp.broker.network.now pageRequest
    (givenUp.broker.network.stream (pageHold false).link.id) = lateReply :=
  (congrArg ((pageLink false).send false 0 pageRequest) stream_givenUp).trans send_page_again

/-- The second exchange ends with the reply to the first. -/
def answeredLate : Traffic :=
  givenUp.touch 0 (pageCaller (.holding (pageHold false) none)) (pageHold false) lateReply

theorem stroke_send_again :
    givenUp.stroke (.action (.caller 0 (.send pageRequest))) = answeredLate := by
  rw [stroke, step_send callers_givenUp rfl, send_givenUp]
  rfl

theorem endsWith_again : ∃ reply,
    givenUp.EndsWith 0 (.action (.caller 0 (.send pageRequest))) reply :=
  ⟨_, pageCaller (.holding (pageHold false) none), pageHold false, none, lateReply, rfl,
    callers_givenUp, rfl, congrArg some send_givenUp, rfl⟩

theorem callers_answeredLate : ∃ c h,
    (answeredLate.run ([.caller 0 .drop, .ask {} pageRequest, .caller 1 .take] ++
      [.caller 1 .probe])).callers[1]? = some c ∧ c.stage = .holding h none ∧ h.link.id = 0 := by
  have hfound : (answeredLate.run
      [.caller 0 .drop, .ask {} pageRequest, .caller 1 .take]).callers[1]? =
        some (pageCaller (.probing ⟨⟨"http", "example.com", 80⟩, false⟩
          { pageHold true with link := { pageLink true with idleSince := 1 }, reused := true })) := by
    decide
  rw [callers_run_probe hfound rfl rfl (by decide)]
  exact ⟨_, _, getElem?_turn hfound _, rfl, rfl⟩

/-- **A link becomes fit again by a reply to a request that was given up.**  Its holder gives up an
exchange and sends again; the late reply to the first request is taken for that to the second, with
which the link may be used again.  It is let go of and put on the shelf, and the next caller gets
it, though the reply to the second request is still to come. -/
theorem strokes_unusable_fails :
    let send : Stroke := .action (.caller 0 (.send pageRequest))
    let drop : Stroke := .action (.caller 0 .drop)
    let t := atHand.strokes [send, .action (.caller 0 .abandon)]
    let v := t.stroke send
    t.callers[0]? = some (pageCaller (.holding (pageHold false) none)) ∧
    (∃ reply, t.EndsWith 0 send reply) ∧
    v.callers[0]? = some (pageCaller (.holding (pageHold true) none)) ∧
    (v.stroke drop).broker.pool.idle.map (·.id) = [0] ∧
    ∃ c h, (v.run ([.caller 0 .drop, .ask {} pageRequest, .caller 1 .take] ++
      [.caller 1 .probe])).callers[1]? = some c ∧ c.stage = .holding h none ∧ h.link.id = 0 := by
  intro send drop t v
  have ht : t = givenUp := congrArg (stroke · (.action (.caller 0 .abandon))) stroke_send_late
  have hv : v = answeredLate := (congrArg (stroke · send) ht).trans stroke_send_again
  rw [hv, ht]
  exact ⟨callers_givenUp, endsWith_again, by decide, by decide, callers_answeredLate⟩

/-- Giving up and letting go are no end of an exchange. -/
theorem not_endsWith_leave {s : Stroke}
    (hs : s ∈ [Stroke.action (.caller i .abandon), .action (.caller i .drop)]) (reply : Reply) :
    ¬ t.EndsWith i s reply := by
  rintro ⟨_, _, _, _, -, -, -, hp, -⟩
  rcases List.mem_pair.1 hs with rfl | rfl <;> cases hp

theorem exists_strokes_givenUp :
    ∃ list, (start {} 8 90000 { dials := [.opens lateEnd] }).strokes list = givenUp := by
  refine ⟨(visit 0 {} page).map .action ++
    [.action (.caller 0 (.send pageRequest)), .action (.caller 0 .abandon)], ?_⟩
  rw [strokes_append, strokes_actions]
  exact congrArg (stroke · (.action (.caller 0 .abandon))) stroke_send_late

/-- A link on which a request has begun to be sent is given up and let go of.  Where a second
request is sent on one instead, what makes it fit again is a reply whose end is marked. -/
theorem strokes_unusable_begun :
    let t := (start {} 8 90000 { dials := [.opens lateEnd] }).strokes
      ((visit 0 {} page).map .action ++ [.begin 0 pageRequest])
    let v := t.strokes [.action (.caller 0 .abandon), .action (.caller 0 .drop)]
    let send : Stroke := .action (.caller 0 (.send pageRequest))
    t.callers[0]? =
        some (pageCaller (.holding (pageHold false) (some (.sending .get pageBytes)))) ∧
      (∀ link ∈ v.broker.pool.idle, link.id ≠ 0) ∧
      (givenUp.stroke send).callers[0]? = some (pageCaller (.holding (pageHold true) none)) ∧
      ∃ (head : Reply.Head) (body : Bytes) (method : Method),
        givenUp.EndsWith 0 send (head.withBody body) ∧ givenUp.Asks 0 send method ∧
          Reply.EndMarked method head := by
  have hc : ((start {} 8 90000 { dials := [.opens lateEnd] }).strokes
      ((visit 0 {} page).map .action ++ [.begin 0 pageRequest])).callers[0]? =
        some (pageCaller (.holding (pageHold false) (some (.sending .get pageBytes)))) := by
    decide +kernel
  obtain ⟨list, hlist⟩ := exists_strokes_givenUp
  -- From here on the strokes so far are of no account, only who has come of them.
  generalize (visit 0 {} page).map Stroke.action ++ [Stroke.begin 0 pageRequest] = before at hc ⊢
  have hunusable := strokes_unusable {} 8 90000 { dials := [.opens lateEnd] } before
    [.action (.caller 0 .abandon), .action (.caller 0 .drop)] (h := pageHold false) hc rfl rfl
    fun first s rest heq => not_endsWith_leave (by rw [heq]; simp)
  have hgiven := strokes_unusable {} 8 90000 { dials := [.opens lateEnd] } list []
    (h := pageHold false) ((congrArg (·.callers[0]?) hlist).trans callers_givenUp) rfl rfl
    fun first s rest heq => by cases first <;> cases heq
  rw [hlist] at hgiven
  have hagain : (givenUp.stroke (.action (.caller 0 (.send pageRequest)))).callers[0]? =
      some (pageCaller (.holding (pageHold true) none)) := by
    rw [stroke_send_again]
    decide
  obtain ⟨head, body, method, hends, hasks, hmarked, -⟩ :=
    hgiven.2.2.2.2 _ _ _ _ hagain rfl rfl rfl
  exact ⟨hc, hunusable.2.1, hagain, head, body, method, hends, hasks, hmarked⟩

end Traffic

end HttpExchange
