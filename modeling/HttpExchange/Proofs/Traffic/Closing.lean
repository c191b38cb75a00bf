import HttpExchange.Proofs.Header
import HttpExchange.Proofs.Text.Blank
import HttpExchange.Proofs.Traffic.Unusable

/-!
# A far end that asks to close

A reply may ask to close its connection in any of its `Connection` fields, among other options
(`Reply.AsksToClose`).  It is heard where the first of these fields says so and nothing else.

* `stroke_of_progress` — what a stroke of an exchange makes of things is to store how far it got;
* `asksToClose_of_first?` — a reply that is heard asks to close;
* `strokes_closing` — and the link it came on is never put on a shelf;
* `strokes_closing_fails` — a second `Connection` field is not heard, and the link is put on one.
-/

namespace HttpExchange

/-! ### Options of a field -/

/-- The options that the fields of a name list, with commas between them and blanks around. -/
def Headers.options (hs : Headers) (name : String) : List String :=
  (hs.every name).flatMap fun value =>
    (value.toList.splitOn ',').map fun part => Blank.trim (String.ofList part)

/-- One of the options of the connection is to close it. -/
def Reply.AsksToClose (r : Reply) : Prop :=
  ∃ part ∈ r.headers.options "Connection", Ascii.eqIgnoreCase part "close" = true

/-- What says `close` has neither blanks nor commas. -/
theorem Ascii.plain_of_close {value : String} (h : eqIgnoreCase value "close" = true) {c : Char}
    (hc : c ∈ value.toList) : Blank.isBlank c = false ∧ c ≠ ',' :=
  Blank.plain_of_eqIgnoreCase h (by decide) (List.forall_iff_forall_mem.1 (by decide)) hc

/-- **A reply whose first `Connection` field says `close` asks to close.** -/
theorem Reply.asksToClose_of_first? {r : Reply} {value : String}
    (h : r.headers.first? "Connection" = some value)
    (hclose : Ascii.eqIgnoreCase value "close" = true) : r.AsksToClose := by
  have hwhole : value.toList.splitOn ',' = [value.toList] := by
    refine List.splitOnP_eq_singleton fun c hc => ?_
    rw [beq_eq_false_iff_ne]
    exact (Ascii.plain_of_close hclose hc).2
  have htrim : Blank.trim value = value :=
    Blank.trim_eq_self fun c hc => (Ascii.plain_of_close hclose hc).1
  refine ⟨value, List.mem_flatMap.2 ⟨value, Headers.mem_every_of_first? h, ?_⟩, hclose⟩
  rw [hwhole, List.map_singleton, String.ofList_toList, htrim]
  exact List.mem_singleton_self value

namespace Traffic

variable {t : Traffic} {i : Nat} {c : Caller}

/-! ### After the reply -/

/-- **A stroke of an exchange** stores how far the exchange got. -/
theorem stroke_of_progress {s : Stroke} (hnumber : s.number? = some i)
    (hc : t.callers[i]? = some c) {h : Handle} {x : Option Exchange}
    (hstage : c.stage = .holding h x) {p : Exchange.Progress} (hp : t.progress? h x s = some p) :
    t.stroke s = t.touch i c h p := by
  cases progresses hp with
  | sent j request =>
    cases hnumber
    exact step_send hc hstage request
  | resumed j x =>
    cases hnumber
    exact step_resume hc hstage
  | began j request =>
    cases hnumber
    exact stroke_begin hc hstage request
  | moved j x =>
    cases hnumber
    exact stroke_move hc hstage

/-- The use of a link is not given back with a reply that is heard to ask to close. -/
theorem EndsWith.unfit (hs : t.Sound) {s : Stroke} {reply : Reply} (hends : t.EndsWith i s reply)
    {value : String} (hfirst : reply.headers.first? "Connection" = some value)
    (hclose : Ascii.eqIgnoreCase value "close" = true) :
    ∃ c h, (t.stroke s).callers[i]? = some c ∧ c.stage = .holding h none ∧
      h.link.reusable = false := by
  obtain ⟨c, h, x, p, hnumber, hc, hstage, hp, houtcome⟩ := hends
  obtain ⟨_, -, -, hinUse⟩ := hs.fits_stage hc hstage
  refine ⟨{ c with stage := .holding { h with link := p.link } none }, { h with link := p.link },
    ?_, rfl, ?_⟩
  · rw [stroke_of_progress hnumber hc hstage hp, callers_touch hc, houtcome]
    rfl
  · cases hfit : p.link.reusable with
    | false => rfl
    | true =>
      obtain ⟨head, body, hreply, -, hkeeps, -, -⟩ := progress_earned hinUse hp hfit
      cases houtcome.symm.trans hreply
      have hheard : head.asksToClose = true := by
        have hvalue : head.headers.first? "Connection" = some value := hfirst
        rw [Reply.Head.asksToClose, hvalue]
        exact hclose
      rw [hkeeps] at hheard
      cases hheard

/-- Letting go of a link that may not be used again leaves the pool as it is. -/
theorem pool_drop_unfit (hc : t.callers[i]? = some c) {h : Handle}
    (hstage : c.stage = .holding h none) (hreusable : h.link.reusable = false) :
    (t.stroke (.action (.caller i .drop))).broker.pool = t.broker.pool := by
  rw [stroke, pool_drop hc hstage, Pool.checkin, hreusable]
  rfl

/-- **A link whose far end is heard to ask to close is not put on a shelf.**  In any run, whatever
the far end sends and however it cuts it: when a stroke ends an exchange with a reply whose first
`Connection` field is `close`, in whatever case, the link may not be used again.  Others may act, and
the caller may send on it and give up; as long as no other exchange of its own ends with a reply,
letting go of the link leaves the pool as it is, and the link never comes back. -/
theorem strokes_closing (routing : Routing) (maxIdlePerHost idleTimeout : Nat) (network : Network)
    (before after : List Stroke) {i : Nat} {s : Stroke} {reply : Reply} {value : String} :
    let t := (start routing maxIdlePerHost idleTimeout network).strokes before
    let u := t.stroke s
    let v := u.strokes after
    t.EndsWith i s reply → reply.headers.first? "Connection" = some value →
    Ascii.eqIgnoreCase value "close" = true →
    (∀ first s rest, after = first ++ s :: rest →
      ∀ reply, ¬ (u.strokes first).EndsWith i s reply) →
    reply.AsksToClose ∧
    ∃ c h, u.callers[i]? = some c ∧ c.stage = .holding h none ∧ h.link.reusable = false ∧
      (∀ link ∈ v.broker.pool.idle, link.id ≠ h.link.id) ∧
      ∀ d held, v.callers[i]? = some d → d.stage = .holding held none →
        held.link.id = h.link.id → held.link.reusable = false ∧
        (v.stroke (.action (.caller i .drop))).broker.pool = v.broker.pool ∧
        ∀ later, h.link.id ∉ ((v.stroke (.action (.caller i .drop))).strokes later).places := by
  intro t u v hends hfirst hclose hquiet
  have ht : t.Sound :=
    sound_strokes (sound_start routing maxIdlePerHost idleTimeout network) before
  have hu : u.Sound := sound_stroke ht s
  have hv : v.Sound := sound_strokes hu after
  obtain ⟨c, h, hc, hstage, hreusable⟩ := hends.unfit ht hfirst hclose
  have hlt := hu.numbered _ (mem_places_of_handle hc (by rw [hstage]; rfl))
  have hunfit : v.Unfit i h.link.id :=
    unfit_strokes hu ⟨hlt, fun _ => ⟨c, h, none, hc, hstage, rfl, hreusable⟩⟩ hquiet
  refine ⟨Reply.asksToClose_of_first? hfirst hclose, c, h, hc, hstage, hreusable,
    (hunfit.apart hv).1, fun d held hd hholds hid => ?_⟩
  have hheld := (hunfit.holding hd (by rw [hholds]; rfl) hid).2
  refine ⟨hheld, pool_drop_unfit hd hholds hheld, fun later => ?_⟩
  refine not_mem_places_strokes (sound_stroke hv _) ?_ ?_ later
  · rw [← hid]
    exact not_mem_places_drop hv hd hholds hheld
  · exact Nat.lt_of_lt_of_le hunfit.1 (later_stroke hv _).streams

/-! ### A reply with one or two `Connection` fields -/

/-- Someone holds a link to a far end. -/
def pageAtHand (s : Stream) : Traffic where
  broker :=
    { routing := {}
      pool := { maxIdlePerHost := 8, idleTimeout := 90000 }
      network :=
        { streams := #[s]
          connects := [(⟨"http", "example.com", 80⟩, .loopback 3128)]
          clock := 1 } }
  callers := [pageCaller (.holding (pageHold true) none)]
  started := [⟨⟨⟨"http", "example.com", 80⟩, false⟩, .loopback 3128, 0⟩]
  made := [(0, 0)]

theorem route_page :
    Routing.route {} {} { url := page } = .ok ⟨⟨"http", "example.com", 80⟩, false⟩ := by
  decide

theorem strokes_visit (s : Stream) :
    (start {} 8 90000 { dials := [.opens s] }).strokes ((visit 0 {} page).map .action) =
      pageAtHand s := by
  rw [strokes_actions, visit, run_cons, step, start, ask, route_page]
  rfl

/-- A far end that answers and keeps silent. -/
def answeringEnd (answer : Bytes) : Stream := { reads := [.data answer, .hang] }

/-- How an exchange with it ends. -/
def answered (answer : Bytes) (head : Reply.Head) : Exchange.Progress :=
  ⟨.finished (.ok (head.withBody [])), 0, pageLink (Exchange.leavesReusable head true []),
    { heard (answeringEnd answer) with reads := [.hang] }⟩

section Answered

variable {answer : Bytes} {head : Reply.Head}
  (hne : answer ≠ []) (hlength : answer.length ≤ usualPerRead)
  (hstep : (Reply.Reader.start .get Reply.defaultMaxBody answer).step =
    .stop (.complete head [] true []))
include hne hlength hstep

theorem progress_pageAtHand : (pageAtHand (answeringEnd answer)).progress? (pageHold true) none
    (.action (.caller 0 (.send pageRequest))) = some (answered answer head) := by
  have hread : (heard (answeringEnd answer)).read false 0 (heard (answeringEnd answer)).perRead =
      (.data answer, 0, { heard (answeringEnd answer) with reads := [.hang] }) :=
    Stream.read_piece false 0 usualPerRead rfl hne (Nat.le_min.2 ⟨hlength, hlength⟩)
  have hsend : (pageLink true).send false 0 pageRequest (answeringEnd answer) =
      answered answer head := by
    rw [send_page true rfl rfl, Exchange.receive_of_wants (advance_start_nil _ _), hread]
    exact Exchange.receive_of_complete (Reply.Reader.advance_of_stop hstep)
  exact congrArg some hsend

theorem endsWith_pageAtHand : (pageAtHand (answeringEnd answer)).EndsWith 0
    (.action (.caller 0 (.send pageRequest))) (head.withBody []) :=
  ⟨pageCaller (.holding (pageHold true) none), pageHold true, none, answered answer head, rfl, rfl,
    rfl, progress_pageAtHand hne hlength hstep, rfl⟩

theorem stroke_pageAtHand :
    (pageAtHand (answeringEnd answer)).stroke (.action (.caller 0 (.send pageRequest))) =
      (pageAtHand (answeringEnd answer)).touch 0 (pageCaller (.holding (pageHold true) none))
        (pageHold true) (answered answer head) :=
  stroke_of_progress rfl rfl rfl (progress_pageAtHand hne hlength hstep)

end Answered

/-- The far end asks to close, and the link is let go of. -/
theorem strokes_closing_heard :
    let head : Reply.Head := ⟨204, "No Content", "HTTP/1.1", [⟨"Connection", "Close"⟩]⟩
    let t := pageAtHand (answeringEnd head.bytes)
    let send : Stroke := .action (.caller 0 (.send pageRequest))
    let drop : Stroke := .action (.caller 0 .drop)
    t.EndsWith 0 send (head.withBody []) ∧
      ∃ c h, (t.stroke send).callers[0]? = some c ∧ c.stage = .holding h none ∧
        h.link.reusable = false ∧
        ((t.stroke send).stroke drop).broker.pool = (t.stroke send).broker.pool ∧
        ∀ later, h.link.id ∉ (((t.stroke send).stroke drop).strokes later).places := by
  intro head t send drop
  have hends : t.EndsWith 0 send (head.withBody []) :=
    endsWith_pageAtHand head.bytes_ne_nil (by decide +kernel) (by decide +kernel)
  have hclosing := @strokes_closing {} 8 90000 { dials := [.opens (answeringEnd head.bytes)] }
    ((visit 0 {} page).map .action) [] 0 send (head.withBody []) "Close"
  rw [strokes_visit] at hclosing
  obtain ⟨-, c, h, hc, hstage, hreusable, -, hdrop⟩ := hclosing hends rfl rfl (by simp)
  exact ⟨hends, c, h, hc, hstage, hreusable, (hdrop c h hc hstage rfl).2⟩

/-- **A second `Connection` field is not heard.**  The link can be used again, and is put on a shelf
when it is let go of. -/
theorem strokes_closing_fails :
    let head : Reply.Head := ⟨204, "No Content", "HTTP/1.1",
      [⟨"Connection", "keep-alive"⟩, ⟨"Connection", "close"⟩]⟩
    let t := pageAtHand (answeringEnd head.bytes)
    let send : Stroke := .action (.caller 0 (.send pageRequest))
    let drop : Stroke := .action (.caller 0 .drop)
    t = (start {} 8 90000 { dials := [.opens (answeringEnd head.bytes)] }).strokes
        ((visit 0 {} page).map .action) ∧
      t.EndsWith 0 send (head.withBody []) ∧ (head.withBody []).AsksToClose ∧
      (t.stroke send).callers[0]? = some (pageCaller (.holding (pageHold true) none)) ∧
      ((t.stroke send).stroke drop).broker.pool.idle.map (·.id) = [0] := by
  intro head t send drop
  have hne := head.bytes_ne_nil
  have hlength : head.bytes.length ≤ usualPerRead := by decide +kernel
  have hstep : (Reply.Reader.start .get Reply.defaultMaxBody head.bytes).step =
      .stop (.complete head [] true []) := by decide +kernel
  refine ⟨(strokes_visit _).symm, endsWith_pageAtHand hne hlength hstep,
    ⟨"close", by decide, by decide⟩, ?_⟩
  rw [stroke_pageAtHand hne hlength hstep]
  exact ⟨by decide, by decide⟩

end Traffic

end HttpExchange
