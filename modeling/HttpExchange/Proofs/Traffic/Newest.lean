import HttpExchange.Proofs.Pool.Search
import HttpExchange.Proofs.Traffic.Alone
import HttpExchange.Proofs.Traffic.Forgotten

/-!
# The newest link that is live

What `Broker.reuses_or_replaces` says of one shelf is said here of every pool that a run can bring
about, with the order on a shelf read as the order in which the links were put there.  A run may end
with any passage of time and with anything on the streams that are open, so it leaves any of the
idle links live and any of them not.

* `ShelvedAt` — the one stroke (`ShelvedAt.unique`) that put a link on its shelf, where it has been
  since; `Earlier` compares two links by it;
* `shelved_strokes` — in every run the links on a shelf are in that order, the newest first;
* `exists_run_search` — a caller whom nobody interrupts comes to the end of its search;
* `strokes_acquire` — getting a link hands out the last that was put on the shelf of those that are
  live, drops those put there after it and leaves everything else; or, where none is live, empties
  the shelf and connects.
-/

namespace HttpExchange

namespace Traffic

/-- The numbers of the idle links. -/
def idleIds (t : Traffic) : List Nat := t.broker.pool.idle.map (·.id)

/-- In a run the stroke with the number `k` has put a link on its shelf, where it has been since. -/
structure ShelvedAt (w : Traffic) (list : List Stroke) (id k : Nat) : Prop where
  lt : k < list.length
  before : id ∉ (w.strokes (list.take k)).idleIds
  since : ∀ j, k < j → id ∈ (w.strokes (list.take j)).idleIds

/-- In a run one link was put on its shelf before the other was put on its own. -/
def Earlier (w : Traffic) (list : List Stroke) (older newer : Nat) : Prop :=
  ∃ j k, w.ShelvedAt list older j ∧ w.ShelvedAt list newer k ∧ j < k

variable {t w : Traffic} {list : List Stroke} {s : Stroke} {id k : Nat}

theorem mem_idleIds_of_idleTo {d : Destination} {link : Link}
    (h : link ∈ t.broker.pool.idleTo d) : link.id ∈ t.idleIds :=
  List.mem_map_of_mem (Pool.mem_idle_iff.2 ⟨d, h⟩)

/-- There is no more than one such stroke. -/
theorem ShelvedAt.unique {j : Nat} (h : w.ShelvedAt list id j) (g : w.ShelvedAt list id k) :
    j = k := by
  rcases Nat.lt_trichotomy j k with hlt | heq | hlt
  · exact absurd (h.since k hlt) g.before
  · exact heq
  · exact absurd (g.since j hlt) h.before

/-- Which stroke has put a link on its shelf does not change while it is there. -/
theorem ShelvedAt.concat (h : w.ShelvedAt list id k)
    (hid : id ∈ (w.strokes (list ++ [s])).idleIds) : w.ShelvedAt (list ++ [s]) id k := by
  have hlt := h.lt
  refine ⟨?_, ?_, fun j hj => ?_⟩
  · rw [List.length_append]
    exact Nat.lt_add_right _ hlt
  · rw [List.take_append_of_le_length hlt.le]
    exact h.before
  · rcases Nat.lt_or_ge list.length j with hlong | hle
    · rw [List.take_of_length_le (by rw [List.length_append]; exact hlong)]
      exact hid
    · rw [List.take_append_of_le_length hle]
      exact h.since j hj

theorem shelvedAt_concat (hbefore : id ∉ (w.strokes list).idleIds)
    (hid : id ∈ (w.strokes (list ++ [s])).idleIds) : w.ShelvedAt (list ++ [s]) id list.length := by
  refine ⟨by simp, ?_, fun j hj => ?_⟩
  · rw [List.take_append_of_le_length (Nat.le_refl _), List.take_length]
    exact hbefore
  · rw [List.take_of_length_le (by rw [List.length_append]; exact hj)]
    exact hid

/-- The links on a shelf have been put there one after another, the newest last. -/
structure Shelved (w : Traffic) (list : List Stroke) : Prop where
  dated : ∀ id ∈ (w.strokes list).idleIds, ∃ k, w.ShelvedAt list id k
  ordered : ∀ d, ((w.strokes list).broker.pool.idleTo d).Pairwise
    fun newer older => w.Earlier list older.id newer.id

theorem Earlier.concat {older newer : Nat} (h : w.Earlier list older newer)
    (holder : older ∈ (w.strokes (list ++ [s])).idleIds)
    (hnewer : newer ∈ (w.strokes (list ++ [s])).idleIds) :
    w.Earlier (list ++ [s]) older newer := by
  obtain ⟨j, k, hj, hk, hlt⟩ := h
  exact ⟨j, k, hj.concat holder, hk.concat hnewer, hlt⟩

theorem shelved_nil (h : w.broker.pool.idle = []) : w.Shelved [] := by
  refine ⟨fun id hid => ?_, fun d => ?_⟩
  · rw [strokes_nil, idleIds, h] at hid
    cases hid
  · have hnone : w.broker.pool.idleTo d = [] := by
      rw [List.eq_nil_iff_forall_not_mem]
      intro link hlink
      have hidle := Pool.mem_idle_iff.2 ⟨d, hlink⟩
      rw [h] at hidle
      cases hidle
    rw [strokes_nil, hnone]
    exact .nil

theorem Shelved.concat (h : w.Shelved list) (hs : (w.strokes list).Sound) (s : Stroke) :
    w.Shelved (list ++ [s]) := by
  have hdated : ∀ id ∈ (w.strokes (list ++ [s])).idleIds, ∃ k, w.ShelvedAt (list ++ [s]) id k := by
    intro id hid
    by_cases hbefore : id ∈ (w.strokes list).idleIds
    · obtain ⟨k, hk⟩ := h.dated id hbefore
      exact ⟨k, hk.concat hid⟩
    · exact ⟨_, shelvedAt_concat hbefore hid⟩
  -- Those that were there and still are keep their order.
  have hkept {d : Destination} {links : List Link}
      (hbefore : links.Sublist ((w.strokes list).broker.pool.idleTo d))
      (hnow : links ⊆ (w.strokes (list ++ [s])).broker.pool.idleTo d) :
      links.Pairwise fun newer older => w.Earlier (list ++ [s]) older.id newer.id :=
    ((h.ordered d).sublist hbefore).imp_of_mem fun hnewer holder hearlier =>
      hearlier.concat (mem_idleIds_of_idleTo (hnow holder)) (mem_idleIds_of_idleTo (hnow hnewer))
  refine ⟨hdated, fun d => ?_⟩
  obtain hshorter | ⟨i, c, handle, clock, -, hc, hstage, -, hback⟩ := idleTo_stroke hs s d
  · rw [← strokes_concat] at hshorter
    exact hkept hshorter (List.Subset.refl _)
  · have hnew : handle.link.id ∉ (w.strokes list).idleIds := by
      intro hidle
      obtain ⟨link, hlink, heq⟩ := List.mem_map.1 hidle
      exact hs.id_ne_of_idle hc (by rw [hstage]; rfl) hlink heq
    rw [← strokes_concat] at hback
    have hnow : ∀ link ∈ (w.strokes list).broker.pool.idleTo d,
        link ∈ (w.strokes (list ++ [s])).broker.pool.idleTo d := by
      intro link hlink
      rw [hback]
      exact List.mem_cons_of_mem _ hlink
    let put : Link := { handle.link with idleSince := clock }
    have hput : put.id ∈ (w.strokes (list ++ [s])).idleIds := by
      refine mem_idleIds_of_idleTo (d := d) ?_
      rw [hback]
      exact List.mem_cons_self
    rw [hback, List.pairwise_cons]
    refine ⟨fun older holder => ?_, hkept (.refl _) hnow⟩
    obtain ⟨j, hj⟩ := h.dated older.id (mem_idleIds_of_idleTo holder)
    exact ⟨j, list.length, hj.concat (mem_idleIds_of_idleTo (hnow older holder)),
      shelvedAt_concat hnew hput, hj.lt⟩

/-- **In every run the links on a shelf are in the order in which they were put there.** -/
theorem shelved_strokes (hw : w.Sound) (h : w.broker.pool.idle = []) (list : List Stroke) :
    w.Shelved list := by
  induction list using List.reverseRecOn with
  | nil => exact shelved_nil h
  | append_singleton list s ih => exact ih.concat (sound_strokes hw list) s

theorem Sound.distinct_ids (hs : t.Sound) (d : Destination) :
    ((t.broker.pool.idleTo d).map (·.id)).Nodup := by
  have hidle := (List.nodup_append.1 hs.exclusive).1
  have hperm := (t.broker.pool.idle_perm d).map (·.id)
  rw [List.map_append] at hperm
  exact (List.nodup_append.1 (hperm.nodup_iff.1 hidle)).1

theorem Sound.empty_buffers (hs : t.Sound) (d : Destination) {link : Link}
    (hlink : link ∈ t.broker.pool.idleTo d) : link.buffer = [] :=
  (hs.rests d link hlink).settled (hs.rests d link hlink).reusable

/-- **A caller whom nobody interrupts comes to the end of its search**, with the newest live link of
the shelf if there is one. -/
theorem exists_run_search (hs : t.Sound) {o : ClientOptions} {r : Outgoing} {route : Route}
    (hroute : t.broker.routing.route o r = .ok route) :
    ∃ deeds : List Deed, (∀ d ∈ deeds, d.Seeks) ∧
      deeds.length ≤ 2 * (t.broker.pool.idleTo route.destination).length + 1 ∧
      (t.run (.ask o r :: deeds.map (.caller t.callers.length))).callers[t.callers.length]? =
        some ⟨o, r, .afterTakeLive route t.broker.pool.generation
          ((t.broker.pool.idleTo route.destination).find? t.broker.live)⟩ := by
  obtain ⟨deeds, hseeks, hlength, hrun⟩ :=
    t.exists_run_takeLive o r route t.broker.pool t.broker.network.tick.2
  obtain ⟨passed, htakes⟩ := Acquire.exists_takes (n := t.broker.network.tick.2)
    (hs.distinct_ids route.destination) fun _ => hs.empty_buffers route.destination
  refine ⟨deeds, hseeks, hlength, ?_⟩
  have hfind : (t.broker.pool.idleTo route.destination).find? t.broker.live = _ :=
    htakes.picks.find?_eq
  rw [run_cons, t.step_ask o r route hroute, hrun, hfind, ← htakes.generation]
  exact List.getElem?_concat_length

/-- **Getting a link finds the newest that is live.**  In any run, for a request that has a way: the
search comes to an end, with no more than two moves for each link on the shelf and one more.  Where
some link on the shelf has not been idle for too long and has nothing to read on its stream, the one
of these that was put there last is handed out.  It is marked as used before, nothing is taken from
its stream, and neither the resolver nor the connector is asked.  Gone from the shelf are that link
and those put there after it; those put there before it are left, in their order.  Where no link on
the shelf is such, the shelf is emptied, the address is the one that is known or else the resolver
is asked for it once, and if it could be had, one connect is made.  The other shelves are as they
were. -/
theorem strokes_acquire (routing : Routing) (maxIdlePerHost idleTimeout : Nat) (network : Network)
    (list : List Stroke) {o : ClientOptions} {r : Outgoing} {route : Route}
    (hroute : routing.route o r = .ok route) :
    let w := start routing maxIdlePerHost idleTimeout network
    let t := w.strokes list
    let b := t.broker
    let shelf := b.pool.idleTo route.destination
    let result := (b.acquire o r).1
    let after := (b.acquire o r).2
    (∃ deeds : List Deed, (∀ d ∈ deeds, d.Seeks) ∧ deeds.length ≤ 2 * shelf.length + 1 ∧
      (t.run (.ask o r :: deeds.map (.caller t.callers.length))).callers[t.callers.length]? =
        some ⟨o, r, .afterTakeLive route b.pool.generation (shelf.find? b.live)⟩) ∧
    ((∃ link ∈ shelf, b.live link = true) → ∃ newer link,
      b.Reuses route.destination newer link result after ∧
        (∀ other ∈ newer, w.Earlier list link.id other.id) ∧
        (∀ other ∈ after.pool.idleTo route.destination, w.Earlier list other.id link.id) ∧
        ∀ other ∈ shelf, b.live other = true → other = link ∨ w.Earlier list other.id link.id) ∧
    ((∀ link ∈ shelf, b.live link = false) → b.Replaces o route result after) ∧
    ∀ e, e ≠ route.destination → after.pool.idleTo e = b.pool.idleTo e := by
  intro w t b shelf result after
  have hw : w.Sound := sound_start routing maxIdlePerHost idleTimeout network
  have hs : t.Sound := sound_strokes hw list
  have hrouting : b.routing = routing := (later_strokes hw list).routing
  have hordered : shelf.Pairwise fun newer older => w.Earlier list older.id newer.id :=
    (shelved_strokes hw rfl list).ordered route.destination
  rw [← hrouting] at hroute
  refine ⟨exists_run_search hs hroute, ?_⟩
  obtain ⟨hothers, ⟨newer, link, hreuses⟩ | ⟨hnone, hreplaces⟩⟩ :=
    Broker.reuses_or_replaces hroute (hs.distinct_ids _) fun _ => hs.empty_buffers _
  · have hshelf : shelf = newer ++ link :: after.pool.idleTo route.destination := hreuses.shelf
    rw [hshelf, List.pairwise_append, List.pairwise_cons] at hordered
    obtain ⟨-, ⟨hleft, -⟩, hpassed⟩ := hordered
    refine ⟨fun _ => ⟨newer, link, hreuses, ?_, hleft, ?_⟩, fun hnone => ?_, hothers⟩
    · exact fun other hother => hpassed other hother link List.mem_cons_self
    · intro other hother hlive
      rw [hshelf] at hother
      rcases List.mem_append.1 hother with hother | hother
      · cases (hreuses.passed other hother).symm.trans hlive
      · rcases List.mem_cons.1 hother with rfl | hother
        · exact .inl rfl
        · exact .inr (hleft other hother)
    · have hlink : link ∈ shelf := by rw [hshelf]; simp
      cases (hnone link hlink).symm.trans hreuses.live
  · refine ⟨?_, fun _ => hreplaces, hothers⟩
    rintro ⟨link, hlink, hlive⟩
    cases (hnone link hlink).symm.trans hlive

/-- Three far ends, of which the last sends what nobody has asked for. -/
def threeEnds : Network where
  dials := [.opens { reads := [.hang] }, .opens { reads := [.hang] },
    .opens { reads := [.data [0x21], .hang] }]

/-- Three get links to the page, and let go of them one after another. -/
def threeReturns : List Stroke :=
  (visit 0 {} page ++ visit 1 {} page ++ visit 2 {} page ++
    [Action.caller 0 .drop, .caller 1 .drop, .caller 2 .drop]).map .action

/-- What has come of that. -/
def threeIdle : Traffic := (start {} 8 90000 threeEnds).strokes threeReturns

/-- The link with a number, put back at a time. -/
def backAt (number clock : Nat) : Link := { (pageHandle number).link with idleSince := clock }

theorem shelf_threeIdle : threeIdle.broker.pool.idleTo pageRoute.destination =
    [backAt 2 5, backAt 1 4, backAt 0 3] := by
  decide

/-- The last link that was put back is passed over, and the one before it is handed out. -/
theorem strokes_acquire_page :
    let made := threeIdle.broker.acquire {} { url := page }
    made.1 = .ok ⟨backAt 1 4, 0, true⟩ ∧
      made.2.pool.idleTo pageRoute.destination = [backAt 0 3] := by
  intro made
  let b := threeIdle.broker
  have hroute : Routing.route {} {} { url := page } = .ok pageRoute := by decide
  have hsilent : b.live (backAt 1 4) = true := by
    have hreads : (b.network.stream 1).reads = [.hang] := by decide
    rw [Broker.live_eq, show (backAt 1 4).id = 1 from rfl, Stream.readable_of_hang _ hreads]
    decide
  have hspeaks : b.live (backAt 2 5) = false := by
    have hreads : (b.network.stream 2).reads = [.data [0x21], .hang] := by decide
    rw [Broker.live_eq, show (backAt 2 5).id = 2 from rfl, Stream.readable_of_data _ hreads,
      Bool.not_true, Bool.and_false]
  have hmem : backAt 1 4 ∈ b.pool.idleTo pageRoute.destination := by
    rw [show b.pool.idleTo pageRoute.destination = _ from shelf_threeIdle]
    exact List.mem_cons_of_mem _ List.mem_cons_self
  obtain ⟨-, hlive, -⟩ := strokes_acquire {} 8 90000 threeEnds threeReturns hroute
  obtain ⟨newer, link, hreuses, -⟩ := hlive ⟨backAt 1 4, hmem, hsilent⟩
  have hshelf : backAt 2 5 :: [backAt 1 4, backAt 0 3] =
      newer ++ link :: made.2.pool.idleTo pageRoute.destination :=
    shelf_threeIdle.symm.trans hreuses.shelf
  cases newer with
  | nil =>
    obtain ⟨rfl, -⟩ := List.cons.inj hshelf
    cases hspeaks.symm.trans hreuses.live
  | cons last newer =>
    obtain ⟨-, hshelf⟩ := List.cons.inj hshelf
    cases newer with
    | nil =>
      obtain ⟨rfl, hleft⟩ := List.cons.inj hshelf
      exact ⟨hreuses.handed, hleft.symm⟩
    | cons next newer =>
      obtain ⟨rfl, -⟩ := List.cons.inj hshelf
      have hpassed := hreuses.passed (backAt 1 4) (by simp)
      cases hpassed.symm.trans hsilent

end Traffic

end HttpExchange
