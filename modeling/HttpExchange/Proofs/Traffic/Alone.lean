import HttpExchange.Proofs.Traffic.Later

/-!
# A caller whom nobody interrupts

The moves of a caller in `Traffic` are those of `Acquire`, taken apart at every place where others
may come between.  Where nobody does, they come to the same:

* `exists_run_begin` — asking for a link, up to the first wait, is `Acquire.begin`;
* `run_onLookup` — hearing from the resolver, up to the connect, is `Acquire.onLookup`.
-/

namespace HttpExchange

/-- How far a caller has come that has got an idle link, or has found none. -/
def Stage.afterTakeLive (route : Route) (generation : Nat) : Option Link → Stage
  | some link => holding ⟨link, generation, true⟩ none
  | none => lacking route

/-- How far a caller has come at its first wait. -/
def Stage.afterBegin (ticket : Nat) : Acquire.Start → Stage
  | .granted handle => holding handle none
  | .failed error => refused error
  | .lookup route _ => resolving route
  | .connect attempt => connecting ticket attempt

/-- How far a caller has come that has heard from the resolver and gone on. -/
def Stage.afterLookup (ticket : Nat) : Except CallError Attempt → Stage
  | .ok attempt => connecting ticket attempt
  | .error error => refused error

/-- The connect that is started at once, if the address is known. -/
def Acquire.Start.attempt? : Acquire.Start → Option Attempt
  | connect attempt => some attempt
  | _ => none

/-- A deed by which a caller gets on between its waits for the resolver and the connector. -/
def Deed.Seeks : Deed → Prop
  | take | probe | locate | dial => True
  | _ => False

namespace Traffic

/-- With one more caller, and with another pool and network. -/
def joined (t : Traffic) (p : Pool) (n : Network) (c : Caller) : Traffic :=
  { t with broker := t.broker.become p n, callers := t.callers ++ [c] }

/-- With one more connect, if one was started. -/
def dialled (t : Traffic) (attempt : Option Attempt) : Traffic :=
  { t with started := t.started ++ attempt.toList }

@[simp]
theorem dialled_none (t : Traffic) : t.dialled none = t :=
  congrArg (fun started => { t with started }) (List.append_nil t.started)

/-- The caller who came last does something. -/
theorem step_joined (t : Traffic) (p : Pool) (n : Network) (c : Caller) (deed : Deed) :
    (t.joined p n c).step (.caller t.callers.length deed) =
      (t.joined p n c).act t.callers.length c deed := by
  rw [step]
  have hlast : (t.joined p n c).callers[t.callers.length]? = some c :=
    List.getElem?_concat_length
  rw [hlast]

theorem turn_joined (t : Traffic) (p : Pool) (n : Network) (c : Caller) (stage : Stage) :
    (t.joined p n c).turn t.callers.length c stage = t.joined p n { c with stage } := by
  have hset : (t.callers ++ [c]).set t.callers.length { c with stage } =
      t.callers ++ [{ c with stage }] := by
    rw [List.set_append_right _ _ (Nat.le_refl _), Nat.sub_self]
    rfl
  exact congrArg (fun callers => { t.joined p n c with callers }) hset

section Moves

variable (t : Traffic) (o : ClientOptions) (r : Outgoing) (route : Route)

theorem step_ask (hroute : t.broker.routing.route o r = .ok route) :
    t.step (.ask o r) =
      t.joined t.broker.pool t.broker.network.tick.2 ⟨o, r, .choosing route⟩ := by
  rw [step, ask, hroute]
  rfl

theorem step_take {p q : Pool} {n : Network} {found : Option Link}
    (h : p.checkout n.clock route.destination = (found, q)) :
    (t.joined p n ⟨o, r, .choosing route⟩).step (.caller t.callers.length .take) =
      t.joined q n ⟨o, r, .afterTake route q.generation found⟩ := by
  let c : Caller := ⟨o, r, .choosing route⟩
  have h' : (t.joined p n c).broker.pool.checkout (t.joined p n c).broker.network.clock
      route.destination = (found, q) := h
  rw [step_joined]
  show (t.joined p n c).take t.callers.length c route = _
  rw [take, h']
  exact turn_joined t q n c _

theorem step_probe {p : Pool} {n m : Network} {h : Handle} {stale : Bool} {link : Link}
    (hprobe : n.probe h.link = (stale, link, m)) :
    (t.joined p n ⟨o, r, .probing route h⟩).step (.caller t.callers.length .probe) =
      t.joined p m ⟨o, r,
        if stale then .choosing route else .holding { h with link } none⟩ := by
  let c : Caller := ⟨o, r, .probing route h⟩
  have hprobe' : (t.joined p n c).broker.network.probe h.link = (stale, link, m) := hprobe
  rw [step_joined]
  show (t.joined p n c).probe t.callers.length c route h = _
  rw [probe, hprobe']
  exact turn_joined t p m c _

theorem step_locate (p : Pool) (n : Network) :
    (t.joined p n ⟨o, r, .lacking route⟩).step (.caller t.callers.length .locate) =
      t.joined p n ⟨o, r, .afterLocate route
        (if o.cacheAddresses then p.address? (Acquire.endpoint route) else none)⟩ := by
  rw [step_joined]
  exact turn_joined t p n ⟨o, r, .lacking route⟩ _

theorem step_dial (p : Pool) (n : Network) (address : Address) :
    (t.joined p n ⟨o, r, .located route address⟩).step (.caller t.callers.length .dial) =
      (t.joined p n ⟨o, r, .connecting t.started.length ⟨route, address, p.generation⟩⟩).dialled
        (some ⟨route, address, p.generation⟩) := by
  rw [step_joined]
  exact congrArg (dialled · (some ⟨route, address, p.generation⟩))
    (turn_joined t p n ⟨o, r, .located route address⟩ _)

/-- **Looking for an idle link is `Acquire.takeLive`**, and comes to an end: no more than two moves
are made for each link on the shelf, and one more. -/
theorem exists_run_takeLive (p : Pool) (n : Network) :
    ∃ deeds : List Deed, (∀ d ∈ deeds, d.Seeks) ∧
      deeds.length ≤ 2 * (p.idleTo route.destination).length + 1 ∧
      (t.joined p n ⟨o, r, .choosing route⟩).run (deeds.map (.caller t.callers.length)) =
        let (found, q, m) := Acquire.takeLive route.destination p n
        t.joined q m ⟨o, r, .afterTakeLive route q.generation found⟩ := by
  fun_induction Acquire.takeLive route.destination p n with
  | case1 p n q hcheckout =>
    refine ⟨[.take], by simp [Deed.Seeks], by simp, ?_⟩
    rw [List.map_cons, run_cons, step_take t o r route hcheckout]
    rfl
  | case2 p n link q hcheckout link' m hprobe =>
    have hshorter := Pool.length_idleTo_checkout_lt hcheckout
    refine ⟨[.take, .probe], by simp [Deed.Seeks],
      by simp only [List.length_cons, List.length_nil]; omega, ?_⟩
    rw [List.map_cons, List.map_cons, run_cons, run_cons, step_take t o r route hcheckout]
    rw [Stage.afterTake, step_probe t o r route hprobe]
    rfl
  | case3 p n link q hcheckout link' m hprobe ih =>
    obtain ⟨deeds, hseeks, hlength, hdeeds⟩ := ih
    have hshorter := Pool.length_idleTo_checkout_lt hcheckout
    refine ⟨.take :: .probe :: deeds, by simpa [Deed.Seeks] using hseeks,
      by simp only [List.length_cons]; omega, ?_⟩
    rw [List.map_cons, List.map_cons, run_cons, run_cons, step_take t o r route hcheckout]
    rw [Stage.afterTake, step_probe t o r route hprobe]
    exact hdeeds

/-- **Asking for a link, up to the first wait, is `Acquire.begin`.** -/
theorem exists_run_begin :
    ∃ deeds : List Deed, (∀ d ∈ deeds, d.Seeks) ∧
      t.run (.ask o r :: deeds.map (.caller t.callers.length)) =
        let (start, p, n) := Acquire.begin t.broker.routing o r t.broker.pool t.broker.network
        (t.joined p n ⟨o, r, .afterBegin t.started.length start⟩).dialled start.attempt? := by
  cases hroute : t.broker.routing.route o r with
  | error error =>
    refine ⟨[], by simp, ?_⟩
    rw [Acquire.begin, hroute, List.map_nil, run_cons, run_nil, step, ask, hroute]
    exact (dialled_none _).symm
  | ok route =>
    obtain ⟨deeds, hseeks, -, hdeeds⟩ :=
      t.exists_run_takeLive o r route t.broker.pool t.broker.network.tick.2
    have hask := t.step_ask o r route hroute
    rw [Acquire.begin, hroute]
    dsimp only
    generalize Acquire.takeLive route.destination t.broker.pool t.broker.network.tick.2 = result
      at hdeeds ⊢
    obtain ⟨_ | link, p, n⟩ := result
    · -- No idle link is left: the address is looked for, and the connect started if it is known.
      have hlocate := t.step_locate o r route p n
      dsimp only at hdeeds ⊢
      generalize (if o.cacheAddresses then p.address? (Acquire.endpoint route) else none) = found
        at hlocate ⊢
      cases found with
      | none =>
        refine ⟨deeds ++ [.locate], by simpa [Deed.Seeks, or_imp, forall_and] using hseeks, ?_⟩
        rw [List.map_append, run_cons, run_append, hask, hdeeds]
        exact hlocate.trans (dialled_none _).symm
      | some address =>
        refine ⟨deeds ++ [.locate, .dial],
          by simpa [Deed.Seeks, or_imp, forall_and] using hseeks, ?_⟩
        rw [List.map_append, run_cons, run_append, hask, hdeeds]
        exact (congrArg (step · (.caller t.callers.length .dial)) hlocate).trans
          (t.step_dial o r route p n address)
    · refine ⟨deeds, hseeks, ?_⟩
      rw [run_cons, hask, hdeeds]
      exact (dialled_none _).symm

/-- **Hearing from the resolver, up to the connect, is `Acquire.onLookup`.** -/
theorem run_onLookup (p : Pool) (n : Network) (result : Except IoError Address) :
    (t.joined p n ⟨o, r, .resolving route⟩).run
        [.caller t.callers.length (.answer result), .caller t.callers.length .dial] =
      let (attempt, q) := Acquire.onLookup route o.cacheAddresses result p
      (t.joined q n ⟨o, r, .afterLookup t.started.length attempt⟩).dialled attempt.toOption := by
  let c : Caller := ⟨o, r, .resolving route⟩
  rw [run_cons, run_cons, run_nil, step_joined]
  show ((t.joined p n c).answer t.callers.length c route result).step _ = _
  cases result with
  | error error =>
    rw [answer, turn_joined, step_joined]
    exact (dialled_none _).symm
  | ok address =>
    let q := if o.cacheAddresses then p.remember (Acquire.endpoint route) address else p
    have hanswer : (t.joined p n c).answer t.callers.length c route (.ok address) =
        t.joined q n ⟨o, r, .located route address⟩ := turn_joined t q n c _
    have hgeneration : q.generation = p.generation := by
      show (if o.cacheAddresses then _ else _ : Pool).generation = _
      cases o.cacheAddresses <;> rfl
    rw [hanswer, step_dial, hgeneration]
    rfl

end Moves

end Traffic

end HttpExchange
