import HttpExchange.Proofs.Pool.Search

/-!
# What a pool holds for others

Whoever goes to one host and port touches what the pool holds for them and nothing else.  Two pools
that differ in no more than that are the same to everybody who goes elsewhere:

* `Pool.SameBeside` — two pools hold the same, but for one host and port;
* `Acquire.takeLive_beside` — a search elsewhere finds the same links in both;
* `Broker.acquire_beside` — and so getting a link comes to the same.
-/

namespace HttpExchange

namespace Pool

/-- Two pools hold the same links and addresses, but for one host and port. -/
structure SameBeside (e : Endpoint) (p q : Pool) : Prop where
  idleTo : ∀ d : Destination, (d.host, d.port) ≠ e → q.idleTo d = p.idleTo d
  address : ∀ f, f ≠ e → q.address? f = p.address? f
  generation : q.generation = p.generation
  idleTimeout : q.idleTimeout = p.idleTimeout

variable {e : Endpoint} {p q : Pool} {d : Destination} {clock : Nat}

theorem SameBeside.refl (e : Endpoint) (p : Pool) : p.SameBeside e p :=
  ⟨fun _ _ => rfl, fun _ _ => rfl, rfl, rfl⟩

theorem SameBeside.trans {o : Pool} (h : p.SameBeside e q) (g : q.SameBeside e o) :
    p.SameBeside e o :=
  ⟨fun d hd => (g.idleTo d hd).trans (h.idleTo d hd),
    fun f hf => (g.address f hf).trans (h.address f hf), g.generation.trans h.generation,
    g.idleTimeout.trans h.idleTimeout⟩

/-- A checkout takes the newest link that has not expired off the shelf, which may be missing. -/
theorem checkout_eq_takeNewest (p : Pool) (clock : Nat) (d : Destination) :
    (p.checkout clock d).1 = (takeNewest (p.isExpired clock) (p.idleTo d)).1 ∧
      (p.checkout clock d).2.idleTo d = (takeNewest (p.isExpired clock) (p.idleTo d)).2 := by
  obtain ⟨hnone, heq⟩ | heq := p.checkout_cases clock d
  · rw [heq]
    exact ⟨by rw [hnone]; rfl, by rw [hnone]; rfl⟩
  · rw [heq, idleTo_shelve, if_pos rfl]
    exact ⟨rfl, rfl⟩

theorem SameBeside.isExpired (h : p.SameBeside e q) : q.isExpired clock = p.isExpired clock := by
  funext link
  rw [Pool.isExpired, Pool.isExpired, h.idleTimeout]

/-- A checkout elsewhere finds the same link. -/
theorem SameBeside.checkout (h : p.SameBeside e q) (hd : (d.host, d.port) ≠ e)
    {found : Option Link} {p' : Pool} (hp : p.checkout clock d = (found, p')) :
    ∃ q', q.checkout clock d = (found, q') ∧ p'.SameBeside e q' := by
  obtain ⟨hfound, hleft⟩ := p.checkout_eq_takeNewest clock d
  obtain ⟨hfound', hleft'⟩ := q.checkout_eq_takeNewest clock d
  have htakes := p.checkout_takesOut clock d
  have htakes' := q.checkout_takesOut clock d
  have htimeout := p.idleTimeout_checkout clock d
  rw [h.isExpired, h.idleTo d hd] at hfound' hleft'
  rw [hp] at hfound hleft htakes htimeout
  have hq : q.checkout clock d = (found, (q.checkout clock d).2) :=
    Prod.ext (hfound'.trans hfound.symm) rfl
  refine ⟨_, hq, fun c hc => ?_, fun f hf => ?_, ?_, ?_⟩
  · by_cases hcd : c = d
    · subst hcd
      exact hleft'.trans hleft.symm
    · rw [htakes'.others c hcd, htakes.others c hcd]
      exact h.idleTo c hc
  · rw [address?, address?, htakes'.addresses, htakes.addresses]
    exact h.address f hf
  · rw [htakes'.generation, htakes.generation]
    exact h.generation
  · rw [idleTimeout_checkout, htimeout]
    exact h.idleTimeout

/-- Both pools may keep one more address. -/
theorem SameBeside.remember (h : p.SameBeside e q) (f : Endpoint) (a : Address) :
    (p.remember f a).SameBeside e (q.remember f a) := by
  refine ⟨h.idleTo, fun g hg => ?_, h.generation, h.idleTimeout⟩
  rw [address?_remember, address?_remember, h.address g hg]

end Pool

namespace Acquire

variable {e : Endpoint} {d : Destination} {p q : Pool} {n m : Network} {link link' : Link}

/-! ### The three ways on of a search -/

theorem takeLive_of_none (h : p.checkout n.clock d = (none, q)) :
    takeLive d p n = (none, q, n) := by
  rw [takeLive.eq_def]
  split
  · next heq =>
    cases heq.symm.trans h
    rfl
  · next heq => cases heq.symm.trans h

theorem takeLive_of_alive (h : p.checkout n.clock d = (some link, q))
    (hprobe : n.probe link = (false, link', m)) : takeLive d p n = (some link', q, m) := by
  rw [takeLive.eq_def]
  split
  · next heq => cases heq.symm.trans h
  · next heq =>
    cases heq.symm.trans h
    rw [hprobe]

theorem takeLive_of_stale (h : p.checkout n.clock d = (some link, q))
    (hprobe : n.probe link = (true, link', m)) : takeLive d p n = takeLive d q m := by
  rw [takeLive.eq_def]
  split
  · next heq => cases heq.symm.trans h
  · next heq =>
    cases heq.symm.trans h
    rw [hprobe]

/-- **A search elsewhere finds the same.** -/
theorem takeLive_beside (h : p.SameBeside e q) (hd : (d.host, d.port) ≠ e) :
    (takeLive d q n).1 = (takeLive d p n).1 ∧ (takeLive d q n).2.2 = (takeLive d p n).2.2 ∧
      (takeLive d p n).2.1.SameBeside e (takeLive d q n).2.1 := by
  fun_induction takeLive d p n generalizing q with
  | case1 p n p' hcheckout =>
    obtain ⟨q', hcheckout', hleft⟩ := h.checkout hd hcheckout
    rw [takeLive_of_none hcheckout']
    exact ⟨rfl, rfl, hleft⟩
  | case2 p n link p' hcheckout link' m hprobe =>
    obtain ⟨q', hcheckout', hleft⟩ := h.checkout hd hcheckout
    rw [takeLive_of_alive hcheckout' hprobe]
    exact ⟨rfl, rfl, hleft⟩
  | case3 p n link p' hcheckout link' m hprobe ih =>
    obtain ⟨q', hcheckout', hleft⟩ := h.checkout hd hcheckout
    rw [takeLive_of_stale hcheckout' hprobe]
    exact ih hleft

end Acquire

namespace Broker

variable {e : Endpoint} {b c : Broker} {o : ClientOptions} {r : Outgoing} {route : Route}

/-- **Getting a link elsewhere comes to the same**, in the same world, and leaves the pools as much
alike as they were. -/
theorem acquire_beside (hrouting : c.routing = b.routing) (hnetwork : c.network = b.network)
    (h : b.pool.SameBeside e c.pool) (hroute : b.routing.route o r = .ok route)
    (hne : Acquire.endpoint route ≠ e) :
    (c.acquire o r).1 = (b.acquire o r).1 ∧
      (c.acquire o r).2.network = (b.acquire o r).2.network ∧
      (b.acquire o r).2.pool.SameBeside e (c.acquire o r).2.pool := by
  have hroute' : c.routing.route o r = .ok route := hrouting ▸ hroute
  obtain ⟨hfound, hworld, hpools⟩ :=
    Acquire.takeLive_beside (d := route.destination) (n := b.network.tick.2) h hne
  generalize htake : Acquire.takeLive route.destination b.pool b.network.tick.2 = taken
    at hfound hworld hpools
  generalize htake' : Acquire.takeLive route.destination c.pool b.network.tick.2 = taken'
    at hfound hworld hpools
  obtain ⟨found, p, m⟩ := taken
  obtain ⟨found', q, m'⟩ := taken'
  dsimp only at hfound hworld hpools
  subst hfound hworld
  rw [← hnetwork] at htake'
  cases found' with
  | some link =>
    rw [acquire_of_found hroute htake, acquire_of_found hroute' htake', hpools.generation]
    exact ⟨rfl, rfl, hpools⟩
  | none =>
    have hknown : (c.become q m').known? o route = (b.become p m').known? o route := by
      rw [known?, known?]
      exact congrArg (if o.cacheAddresses then · else none) (hpools.address _ hne)
    rw [acquire_of_none hroute htake, acquire_of_none hroute' htake', hknown, hpools.generation]
    cases (b.become p m').known? o route with
    | some a => exact ⟨rfl, rfl, hpools⟩
    | none =>
      cases (m'.lookup (Acquire.endpoint route)).1 with
      | error error => exact ⟨rfl, rfl, hpools⟩
      | ok a =>
        refine ⟨rfl, rfl, ?_⟩
        show Pool.SameBeside e (if o.cacheAddresses then p.remember _ a else p)
          (if o.cacheAddresses then q.remember _ a else q)
        split
        · exact hpools.remember _ a
        · exact hpools

end Broker

end HttpExchange
