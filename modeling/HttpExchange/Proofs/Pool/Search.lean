import HttpExchange.Proofs.Link.Usage
import HttpExchange.Proofs.Pool.Shelves
import HttpExchange.Proofs.Stream.Arrivals

/-!
# The search for an idle link

Getting a link for a request begins with a search: links are taken off a shelf, the newest first,
until one is found that has not been idle for too long (`Pool.checkout`) and on whose stream there
is nothing to read (`Network.probe`).  The two loops are one search for the first link that is live:

* `Stream.Intact` — nothing of what the far end sends has been taken, so that all its bytes are
  still there (`Intact.unread_eq`); `intact_of_read` says that a read which has to wait takes
  nothing;
* `Acquire.live` — a link that can be used again; `Acquire.exists_takes` says that it is the newest
  such link that is found, and what is left (`Acquire.Takes`);
* `Broker.reuses_or_replaces` — what getting a link comes to: the newest live link is handed out
  (`Broker.Reuses`), or there is none, and a connect is made (`Broker.Replaces`).
-/

namespace HttpExchange

/-! ### Looking at a stream -/

/-- A step that lets time pass and brings nothing. -/
def ReadStep.isPause : ReadStep → Bool
  | afterFlush _ | sleep _ => true
  | data _ | fail _ | hang => false

/-- Whether a read has found something: bytes, the end or a failure. -/
def Reading.finds : Reading → Bool
  | data _ | ended | failed _ => true
  | waiting _ => false

namespace Stream

/-- Whether there is something to read now. -/
def readable (now : Nat) (s : Stream) : Bool := (s.read false now s.perRead).1.finds

/-- Nothing of what the far end sends has been taken, and nothing been written: at most, pauses that
are over have been passed. -/
structure Intact (s t : Stream) : Prop where
  pauses : ∃ pauses, s.reads = pauses ++ t.reads ∧ ∀ step ∈ pauses, step.isPause = true
  alike : s.Alike t

theorem Intact.refl (s : Stream) : s.Intact s := ⟨⟨[], rfl, List.forall_mem_nil _⟩, .refl s⟩

/-- A pause is passed. -/
theorem Intact.pass {s t : Stream} {step : ReadStep} {rest : List ReadStep} {wakeAt : Option Nat}
    (hreads : s.reads = step :: rest) (hpause : step.isPause = true)
    (h : (s.reading rest wakeAt).Intact t) : s.Intact t := by
  obtain ⟨pauses, hpauses, hall⟩ := h.pauses
  refine ⟨⟨step :: pauses, ?_, List.forall_mem_cons.2 ⟨hpause, hall⟩⟩, .trans ⟨_, _, rfl⟩ h.alike⟩
  rw [hreads, List.cons_append, ← hpauses, reads_reading]

/-- All the bytes are still there. -/
theorem Intact.unread_eq {s t : Stream} (h : s.Intact t) : t.unread = s.unread := by
  obtain ⟨pauses, hpauses, hall⟩ := h.pauses
  rw [unread, unread, hpauses]
  clear hpauses
  induction pauses with
  | nil => rfl
  | cons step pauses ih =>
    obtain ⟨hstep, hrest⟩ := List.forall_mem_cons.1 hall
    have hsize : step.size = 0 := by cases step <;> first | rfl | cases hstep
    rw [List.cons_append, List.foldr_cons, hsize, Nat.zero_add, ← ih hrest]

/-- **A read that has to wait takes nothing.** -/
theorem intact_of_read {patient : Bool} {now room : Nat} {s : Stream}
    (h : (s.read patient now room).1.finds = false) :
    s.Intact (s.read patient now room).2.2 := by
  fun_induction read patient now room s with
  | case6 => exact .refl _
  | case7 now s count rest hreads hle ih => exact .pass hreads rfl (ih h)
  | case8 => exact .refl _
  | case9 now s duration rest hreads wake hle ih => exact .pass hreads rfl (ih h)
  | case10 now s duration rest hreads wake hlt hpatient ih => exact .pass hreads rfl (ih h)
  | case11 => exact ⟨⟨[], rfl, List.forall_mem_nil _⟩, ⟨_, _, rfl⟩⟩
  | _ => cases h

theorem readable_of_hang (now : Nat) {s : Stream} {rest : List ReadStep}
    (h : s.reads = .hang :: rest) : s.readable now = false := by
  rw [readable, read_silent false now s.perRead h]
  rfl

theorem readable_of_data (now : Nat) {s : Stream} {bytes : Bytes} {rest : List ReadStep}
    (h : s.reads = .data bytes :: rest) : s.readable now = true := by
  rw [readable, read.eq_def]
  split
  case h_2 piece _ heq =>
    dsimp only
    split
    · rfl
    · split <;> rfl
  all_goals
    next heq =>
    cases h.symm.trans heq

end Stream

namespace Network

/-- Nothing has happened but on the streams with some numbers. -/
structure SameBut (n : Network) (ids : List Nat) (m : Network) : Prop where
  same : ∃ streams, m = { n with streams }
  size : m.streams.size = n.streams.size
  stream : ∀ id ∉ ids, m.stream id = n.stream id

theorem SameBut.refl (n : Network) : n.SameBut [] n := ⟨⟨_, rfl⟩, rfl, fun _ _ => rfl⟩

theorem SameBut.trans {n m o : Network} {ids more : List Nat} (h : n.SameBut ids m)
    (g : m.SameBut more o) : n.SameBut (ids ++ more) o := by
  obtain ⟨streams, rfl⟩ := h.same
  obtain ⟨streams', rfl⟩ := g.same
  refine ⟨⟨streams', rfl⟩, g.size.trans h.size, fun id hid => ?_⟩
  rw [List.mem_append, not_or] at hid
  rw [g.stream id hid.2, h.stream id hid.1]

theorem SameBut.mono {n m : Network} {ids more : List Nat} (h : n.SameBut ids m)
    (hsub : ids ⊆ more) : n.SameBut more m :=
  ⟨h.same, h.size, fun id hid => h.stream id fun hmem => hid (hsub hmem)⟩

theorem sameBut_withStream (n : Network) (id : Nat) (s : Stream) :
    n.SameBut [id] (n.withStream id s) := by
  refine ⟨⟨_, rfl⟩, n.size_withStream id s, fun other hother => ?_⟩
  rw [List.mem_singleton] at hother
  simp [stream, withStream, Array.getD_eq_getD_getElem?,
    Array.getElem?_setIfInBounds_ne (Ne.symm hother)]

/-- What was put in the place of a stream is found there, if there was one at all. -/
theorem stream_withStream (n : Network) (id : Nat) (s : Stream) :
    (n.withStream id s).stream id = s ∨ (n.withStream id s).stream id = n.stream id := by
  rw [stream, stream, withStream]
  rcases Nat.lt_or_ge id n.streams.size with hlt | hge
  · left
    simp [hlt]
  · right
    rw [Array.setIfInBounds_eq_of_size_le hge]

end Network

/-! ### Looking at a link -/

section Probe

variable {n : Network} {link : Link}

theorem Link.id_probe (now : Nat) (link : Link) (s : Stream) :
    (link.probe now s).2.1.id = link.id := by
  rw [probe]
  generalize s.read false now s.perRead = reading
  obtain ⟨reading, _, _⟩ := reading
  cases reading <;> split <;> rfl

/-- Looking at a link is one read that does not wait. -/
theorem Link.probe_of_buffer (now : Nat) (s : Stream) (h : link.buffer = []) :
    (link.probe now s).1 = s.readable now ∧
      (link.probe now s).2.2 = (s.read false now s.perRead).2.2 := by
  rw [probe, h, Stream.readable]
  generalize s.read false now s.perRead = reading
  obtain ⟨reading, _, _⟩ := reading
  cases reading <;> exact ⟨rfl, rfl⟩

namespace Network

theorem probe_snd_snd (n : Network) (link : Link) :
    (n.probe link).2.2 = n.withStream link.id (link.probe n.now (n.stream link.id)).2.2 :=
  congrArg (n.withStream · _) (link.id_probe n.now (n.stream link.id))

theorem sameBut_probe (n : Network) (link : Link) : n.SameBut [link.id] (n.probe link).2.2 := by
  rw [probe_snd_snd]
  exact n.sameBut_withStream _ _

/-- A link with nothing in its buffer is found stale if there is something to read. -/
theorem probe_eq_readable (h : link.buffer = []) :
    (n.probe link).1 = (n.stream link.id).readable n.now :=
  (Link.probe_of_buffer _ _ h).1

/-- **Looking at a link that is alive takes nothing.** -/
theorem intact_probe (h : link.buffer = [])
    (halive : (n.stream link.id).readable n.now = false) :
    (n.stream link.id).Intact ((n.probe link).2.2.stream link.id) := by
  rw [probe_snd_snd, (Link.probe_of_buffer _ _ h).2]
  obtain hset | hsame :=
    n.stream_withStream link.id ((n.stream link.id).read false n.now (n.stream link.id).perRead).2.2
  · rw [hset]
    exact Stream.intact_of_read halive
  · rw [hsame]
    exact .refl _

end Network

end Probe

/-! ### The search -/

namespace Acquire

/-- Whether an idle link can be used again: it has not been idle for too long, and there is nothing
to read on its stream. -/
def live (p : Pool) (n : Network) (link : Link) : Bool :=
  !p.isExpired n.clock link && !(n.stream link.id).readable n.now

/-- What a search for a live link comes to. -/
structure Takes (d : Destination) (p : Pool) (n : Network) (passed : List Link)
    (found : Option Link) (q : Pool) (m : Network) : Prop where
  picks : Pool.Picks (live p n) (p.idleTo d) passed found (q.idleTo d)
  others : ∀ e, e ≠ d → q.idleTo e = p.idleTo e
  addresses : q.addresses = p.addresses
  generation : q.generation = p.generation
  idleTimeout : q.idleTimeout = p.idleTimeout
  network : n.SameBut ((passed ++ found.toList).map (·.id)) m
  intact : ∀ link, found = some link → (n.stream link.id).Intact (m.stream link.id)

variable {d : Destination} {p q : Pool} {n m : Network} {link : Link}

/-- Whether a link is live does not change by what happens to others. -/
theorem live_eq {ids : List Nat} (hidle : q.idleTimeout = p.idleTimeout) (hm : n.SameBut ids m)
    (hid : link.id ∉ ids) : live q m link = live p n link := by
  have hstream := hm.stream _ hid
  obtain ⟨streams, rfl⟩ := hm.same
  rw [live, live, Pool.isExpired, Pool.isExpired, hidle, hstream]

/-- What a checkout finds and leaves: what it passes over has expired, and what it finds has not. -/
theorem exists_passed_of_checkout {found : Option Link} (h : p.checkout n.clock d = (found, q)) :
    ∃ passed, Pool.Picks (!p.isExpired n.clock ·) (p.idleTo d) passed found (q.idleTo d) ∧
      (∀ link ∈ passed, live p n link = false) ∧ p.TakesOut d found q ∧
        q.idleTimeout = p.idleTimeout := by
  obtain ⟨passed, hpicks⟩ := p.exists_picks_checkout n.clock d
  have htakes := p.checkout_takesOut n.clock d
  have hidle := p.idleTimeout_checkout n.clock d
  rw [h] at hpicks htakes hidle
  refine ⟨passed, hpicks, fun link hlink => ?_, htakes, hidle⟩
  rw [live, hpicks.unfit link hlink, Bool.false_and]

/-- A search that goes on behind a link which is not live is a search from further up the shelf. -/
theorem Takes.behind {passed expired : List Link} {found : Option Link} {q' : Pool} {m' : Network}
    (h : Takes d q m passed found q' m') (hcheckout : p.TakesOut d (some link) q)
    (hall : p.idleTo d = expired ++ link :: q.idleTo d)
    (hexpired : ∀ l ∈ expired, live p n l = false) (hstale : live p n link = false)
    (hidle : q.idleTimeout = p.idleTimeout) (hsame : n.SameBut [link.id] m)
    (hne : ∀ l ∈ q.idleTo d, l.id ∉ [link.id]) :
    Takes d p n (expired ++ link :: passed) found q' m' := by
  -- What happens to the stale link makes no difference to those behind it.
  have hothers : ∀ l ∈ q.idleTo d, live q m l = live p n l := fun l hl =>
    live_eq hidle hsame (hne l hl)
  have hpassed : ∀ l ∈ passed, l ∈ q.idleTo d := by
    intro l hl
    rw [h.picks.all]
    exact List.mem_append_left _ hl
  have hfound : ∀ l, found = some l → l ∈ q.idleTo d := by
    rintro l rfl
    rw [h.picks.all]
    simp
  refine ⟨⟨?all, fun l hl => ?unfit, fun l hl => ?fit, h.picks.emptied⟩,
    fun e he => (h.others e he).trans (hcheckout.others e he),
    h.addresses.trans hcheckout.addresses, h.generation.trans hcheckout.generation,
    h.idleTimeout.trans hidle, (hsame.trans h.network).mono ?network, fun l hl => ?intact⟩
  case all => rw [hall, h.picks.all, List.append_assoc, List.cons_append]
  case unfit =>
    rcases List.mem_append.1 hl with hl | hl
    · exact hexpired l hl
    · rcases List.mem_cons.1 hl with rfl | hl
      · exact hstale
      · rw [← hothers l (hpassed l hl)]
        exact h.picks.unfit l hl
  case fit =>
    rw [← hothers l (hfound l hl)]
    exact h.picks.fit l hl
  case network =>
    have hsub : link :: (passed ++ found.toList) ⊆ expired ++ link :: passed ++ found.toList := by
      rw [List.append_assoc]
      exact List.subset_append_right _ _
    exact List.map_subset _ hsub
  case intact =>
    have hintact := h.intact l hl
    rw [hsame.stream _ (hne l (hfound l hl))] at hintact
    exact hintact

/-- **The newest live link is found**, the newer ones are dropped, and the older ones stay as they
were. -/
theorem exists_takes (hdistinct : ((p.idleTo d).map (·.id)).Nodup)
    (hclean : ∀ link ∈ p.idleTo d, link.buffer = []) :
    ∃ passed, Takes d p n passed (takeLive d p n).1 (takeLive d p n).2.1 (takeLive d p n).2.2 := by
  fun_induction takeLive d p n with
  | case1 p n q hcheckout =>
    obtain ⟨passed, hpicks, hunfit, htakes, hidle⟩ := exists_passed_of_checkout hcheckout
    have hnone (P : Link → Prop) : ∀ link, (none : Option Link) = some link → P link := by simp
    exact ⟨passed, ⟨hpicks.all, hunfit, hnone _, hpicks.emptied⟩, htakes.others, htakes.addresses,
      htakes.generation, hidle, .mono (.refl n) (List.nil_subset _), hnone _⟩
  | case2 p n link q hcheckout link' m hprobe =>
    obtain ⟨passed, hpicks, hunfit, htakes, hidle⟩ := exists_passed_of_checkout hcheckout
    have hbuffer : link.buffer = [] := hclean link (htakes.mem_idleTo_of_found rfl)
    have halive := Network.probe_eq_readable (n := n) hbuffer
    have hintact := Network.intact_probe (n := n) hbuffer
    have hsame := n.sameBut_probe link
    have hlink := @Network.probe_alive n link
    rw [hprobe] at halive hintact hsame hlink
    obtain rfl := hlink rfl
    have hlive : live p n link' = true := by
      rw [live, hpicks.fit link' rfl, ← halive]
      rfl
    refine ⟨passed, ⟨hpicks.all, hunfit, ?_, fun h => (by cases h)⟩, htakes.others,
      htakes.addresses, htakes.generation, hidle, hsame.mono ?_, ?_⟩
    · rintro link ⟨rfl⟩
      exact hlive
    · rw [List.map_append]
      exact List.subset_append_right _ _
    · rintro link ⟨rfl⟩
      exact hintact halive.symm
  | case3 p n link q hcheckout link' m hprobe ih =>
    obtain ⟨expired, hpicks, hexpired, htakes, hidle⟩ := exists_passed_of_checkout hcheckout
    have hbuffer : link.buffer = [] := hclean link (htakes.mem_idleTo_of_found rfl)
    have hstale := Network.probe_eq_readable (n := n) hbuffer
    have hsame := n.sameBut_probe link
    rw [hprobe] at hstale hsame
    have hdead : live p n link = false := by rw [live, ← hstale, Bool.not_true, Bool.and_false]
    have hall : p.idleTo d = expired ++ link :: q.idleTo d := hpicks.all
    rw [hall, List.map_append, List.map_cons] at hdistinct
    obtain ⟨hfirst, hrest⟩ := List.nodup_cons.1 (List.nodup_append.1 hdistinct).2.1
    have hne : ∀ l ∈ q.idleTo d, l.id ∉ [link.id] := by
      intro l hl hid
      rw [← List.mem_singleton.1 hid] at hfirst
      exact hfirst (List.mem_map_of_mem hl)
    obtain ⟨passed, hfound⟩ := ih hrest fun l hl => hclean l ((htakes.sublist_idleTo d).subset hl)
    exact ⟨_, hfound.behind htakes hall hexpired hdead hidle hsame hne⟩

end Acquire

/-! ### Getting a link -/

namespace Broker

/-- Whether an idle link can be used again when a request is made now. -/
def live (b : Broker) (link : Link) : Bool := Acquire.live b.pool b.network.tick.2 link

theorem live_eq (b : Broker) (link : Link) : b.live link =
    (!b.pool.isExpired (b.network.clock + 1) link &&
      !(b.network.stream link.id).readable b.network.now) := rfl

/-- The address for a route that does not have to be looked up. -/
def known? (b : Broker) (o : ClientOptions) (route : Route) : Option Address :=
  if o.cacheAddresses then b.pool.address? (Acquire.endpoint route) else none

/-- Getting a link has handed out the newest live one: it and those before it on the shelf are gone,
those behind it are left, neither the resolver nor the connector was asked, and nothing was taken
from the stream. -/
structure Reuses (b : Broker) (d : Destination) (newer : List Link) (link : Link)
    (result : Except CallError Handle) (after : Broker) : Prop where
  shelf : b.pool.idleTo d = newer ++ link :: after.pool.idleTo d
  passed : ∀ other ∈ newer, b.live other = false
  live : b.live link = true
  handed : result = .ok ⟨link, b.pool.generation, true⟩
  lookups : after.network.lookups = b.network.lookups
  connects : after.network.connects = b.network.connects
  intact : (b.network.stream link.id).Intact (after.network.stream link.id)
  streams : ∀ id ∉ (newer ++ [link]).map (·.id), after.network.stream id = b.network.stream id

/-- A connect to an address has been made, and no other; what comes of it is the answer. -/
structure Connects (b : Broker) (route : Route) (a : Address) (result : Except CallError Handle)
    (after : Broker) : Prop where
  connects : after.network.connects = b.network.connects ++ [(route.destination, a)]
  answered : result = Acquire.onConnect ⟨route, a, b.pool.generation⟩
    (b.network.connect route.destination a).1

/-- Getting a link has emptied the shelf.  The address is the one that is known, or else the
resolver was asked for it once; and if it could be had, one connect was made to it. -/
structure Replaces (b : Broker) (o : ClientOptions) (route : Route)
    (result : Except CallError Handle) (after : Broker) : Prop where
  shelf : after.pool.idleTo route.destination = []
  known : ∀ a, b.known? o route = some a →
    after.network.lookups = b.network.lookups ∧ b.Connects route a result after
  asked : b.known? o route = none →
    after.network.lookups = b.network.lookups ++ [Acquire.endpoint route]
  located : b.known? o route = none → ∀ a,
    (b.network.lookup (Acquire.endpoint route)).1 = .ok a → b.Connects route a result after
  unresolved : b.known? o route = none → ∀ error,
    (b.network.lookup (Acquire.endpoint route)).1 = .error error →
      result = .error (.unresolved route.destination.host error) ∧
        after.network.connects = b.network.connects

variable {b : Broker} {o : ClientOptions} {r : Outgoing} {route : Route}

theorem acquire_of_found {link : Link} {q : Pool} {m : Network}
    (hroute : b.routing.route o r = .ok route)
    (htake : Acquire.takeLive route.destination b.pool b.network.tick.2 = (some link, q, m)) :
    b.acquire o r = (.ok ⟨link, q.generation, true⟩, b.become q m) := by
  rw [acquire, request, Acquire.begin, hroute]
  dsimp only
  rw [htake]

theorem acquire_of_none {q : Pool} {m : Network} (hroute : b.routing.route o r = .ok route)
    (htake : Acquire.takeLive route.destination b.pool b.network.tick.2 = (none, q, m)) :
    b.acquire o r = match (b.become q m).known? o route with
      | some a => (b.become q m).connect ⟨route, a, q.generation⟩
      | none => match (m.lookup (Acquire.endpoint route)).1 with
        | .error error => (.error (.unresolved route.destination.host error),
            b.become q (m.lookup (Acquire.endpoint route)).2)
        | .ok a => (b.become
            (if o.cacheAddresses then q.remember (Acquire.endpoint route) a else q)
            (m.lookup (Acquire.endpoint route)).2).connect ⟨route, a, q.generation⟩ := by
  rw [acquire, request, Acquire.begin, hroute, known?]
  dsimp only [become]
  rw [htake]
  dsimp only
  generalize (if o.cacheAddresses = true then q.address? (Acquire.endpoint route) else none) = known
  cases known with
  | some a => rfl
  | none =>
    dsimp only
    generalize m.lookup (Acquire.endpoint route) = answer
    obtain ⟨answer, network⟩ := answer
    cases answer <;> rfl

theorem lookups_connect (b : Broker) (a : Attempt) :
    (b.connect a).2.network.lookups = b.network.lookups := by
  rw [connect, Network.connect]
  dsimp only
  split <;> rfl

/-- Connecting after other things have happened is connecting now. -/
theorem connects_connect {c : Broker} {a : Address}
    (hconnects : c.network.connects = b.network.connects)
    (hdials : c.network.dials = b.network.dials)
    (hsize : c.network.streams.size = b.network.streams.size) :
    b.Connects route a (c.connect ⟨route, a, b.pool.generation⟩).1
      (c.connect ⟨route, a, b.pool.generation⟩).2 := by
  rw [connect, Network.connect, hconnects, hdials, hsize]
  constructor
  · dsimp only
    split <;> rfl
  · rw [Network.connect]
    dsimp only
    split <;> rfl

/-- What getting a link comes to where the search has found none. -/
theorem replaces_of_none {passed : List Link} {q : Pool} {m : Network}
    (hroute : b.routing.route o r = .ok route)
    (htake : Acquire.takeLive route.destination b.pool b.network.tick.2 = (none, q, m))
    (htakes : Acquire.Takes route.destination b.pool b.network.tick.2 passed none q m) :
    (∀ e, (b.acquire o r).2.pool.idleTo e = q.idleTo e) ∧
      b.Replaces o route (b.acquire o r).1 (b.acquire o r).2 := by
  have hempty := htakes.picks.emptied rfl
  have hsize := htakes.network.size
  obtain ⟨streams, rfl⟩ := htakes.network.same
  have hknown : (b.become q { b.network.tick.2 with streams }).known? o route =
      b.known? o route := by
    rw [known?, known?, become, Pool.address?, Pool.address?, htakes.addresses]
  rw [acquire_of_none hroute htake, htakes.generation, hknown]
  cases hk : b.known? o route with
  | some a =>
    refine ⟨fun _ => rfl, hempty, fun a' ha' => ?_, ?_, ?_, ?_⟩
    · cases hk.symm.trans ha'
      exact ⟨lookups_connect _ _, connects_connect rfl rfl hsize⟩
    all_goals
      intro hnone
      cases hk.symm.trans hnone
  | none =>
    have hunknown : ∀ a, b.known? o route ≠ some a := fun a ha => by cases hk.symm.trans ha
    have hlookup : ({ b.network.tick.2 with streams }.lookup (Acquire.endpoint route)).1 =
        (b.network.lookup (Acquire.endpoint route)).1 := rfl
    cases hanswer : (b.network.lookup (Acquire.endpoint route)).1 with
    | error error =>
      rw [hanswer] at hlookup
      rw [hlookup]
      refine ⟨fun _ => rfl, hempty, fun a ha => absurd ha (hunknown a), fun _ => rfl,
        fun _ a ha => ?_, fun _ error' herror => ?_⟩
      · cases hanswer.symm.trans ha
      · cases hanswer.symm.trans herror
        exact ⟨rfl, rfl⟩
    | ok a =>
      rw [hanswer] at hlookup
      rw [hlookup]
      have hidle (e : Destination) :
          (if o.cacheAddresses then q.remember (Acquire.endpoint route) a else q).idleTo e =
            q.idleTo e := by
        split <;> rfl
      refine ⟨hidle, (hidle _).trans hempty, fun a' ha' => absurd ha' (hunknown a'),
        fun _ => lookups_connect _ _, fun _ a' ha' => ?_, fun _ error herror => ?_⟩
      · cases hanswer.symm.trans ha'
        exact connects_connect rfl rfl hsize
      · cases hanswer.symm.trans herror

/-- **What getting a link comes to.** -/
theorem reuses_or_replaces (hroute : b.routing.route o r = .ok route)
    (hdistinct : ((b.pool.idleTo route.destination).map (·.id)).Nodup)
    (hclean : ∀ link ∈ b.pool.idleTo route.destination, link.buffer = []) :
    (∀ e, e ≠ route.destination → (b.acquire o r).2.pool.idleTo e = b.pool.idleTo e) ∧
      ((∃ newer link, b.Reuses route.destination newer link (b.acquire o r).1 (b.acquire o r).2) ∨
        ((∀ link ∈ b.pool.idleTo route.destination, b.live link = false) ∧
          b.Replaces o route (b.acquire o r).1 (b.acquire o r).2)) := by
  obtain ⟨passed, htakes⟩ := Acquire.exists_takes (n := b.network.tick.2) hdistinct hclean
  generalize htake : Acquire.takeLive route.destination b.pool b.network.tick.2 = taken at htakes
  obtain ⟨found, q, m⟩ := taken
  dsimp only at htakes
  cases found with
  | some link =>
    obtain ⟨streams, rfl⟩ := htakes.network.same
    rw [acquire_of_found hroute htake]
    exact ⟨htakes.others, .inl ⟨passed, link, htakes.picks.all, htakes.picks.unfit,
      htakes.picks.fit link rfl, by rw [htakes.generation], rfl, rfl, htakes.intact link rfl,
      htakes.network.stream⟩⟩
  | none =>
    obtain ⟨hpool, hreplaces⟩ := replaces_of_none hroute htake htakes
    have hall := htakes.picks.all
    rw [htakes.picks.emptied rfl, List.append_nil, Option.toList_none, List.append_nil] at hall
    refine ⟨fun e he => (hpool e).trans (htakes.others e he), .inr ⟨?_, hreplaces⟩⟩
    rw [hall]
    exact htakes.picks.unfit

end Broker

end HttpExchange
