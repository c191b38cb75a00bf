import HttpExchange.Proofs.Traffic.Custody

/-!
# What a reset does away with

A link carries the generation in which its connect was started: handles, shelves and the record of
connects agree on it (`Made`).  A reset raises the generation above that of every connect started
before it, and connects started after it belong to the new generation or to a later one.  So the
links of before never come back (`ticket_of_idle`, `drop_old`), while the others are taken back as
usual (`drop_new`).

* `reset_retires` — for every run up to a reset and every run after it.
-/

namespace HttpExchange.Traffic

variable {t u v : Traffic} {i : Nat} {c : Caller}

/-! ### Generations of connects -/

/-- A link in any place came of a connect that was started. -/
theorem Sound.ticket_of_mem_places (hs : t.Sound) {id : Nat} (h : id ∈ t.places) :
    ∃ ticket < t.started.length, t.ticket? id = some ticket := by
  have hmade : ∃ link generation, link.id = id ∧ t.Made link generation := by
    rcases List.mem_append.1 h with hidle | hheld
    · obtain ⟨link, hlink, rfl⟩ := List.mem_map.1 hidle
      obtain ⟨d, hd⟩ := Pool.mem_idle_iff.1 hlink
      exact ⟨link, _, rfl, (hs.rests d link hd).made⟩
    · obtain ⟨c, hc, hlink⟩ := List.mem_filterMap.1 hheld
      have hfits := hs.fits c hc
      cases hstage : c.stage with
      | probing route h =>
        rw [hstage] at hfits hlink
        exact ⟨h.link, _, Option.some.inj hlink, hfits.2.made⟩
      | holding h exchange =>
        rw [hstage] at hfits hlink
        obtain ⟨route, -, hserves, -⟩ := hfits
        exact ⟨h.link, _, Option.some.inj hlink, hserves.made⟩
      | _ =>
        rw [hstage] at hlink
        cases hlink
  obtain ⟨link, generation, rfl, ticket, attempt, hticket, hattempt, -⟩ := hmade
  exact ⟨ticket, (List.getElem?_eq_some_iff.1 hattempt).1, hticket⟩

/-- The generations of the connects started so far are not above that of the pool. -/
def Dated (t : Traffic) : Prop := ∀ a ∈ t.started, a.generation ≤ t.broker.pool.generation

theorem Later.dated (h : t.Later u) (ht : t.Dated) : u.Dated := by
  intro a ha
  obtain ⟨more, hmore, hgeneration⟩ := h.started
  rw [hmore] at ha
  rcases List.mem_append.1 ha with ha | ha
  · exact Nat.le_trans (ht a ha) h.generation
  · exact (hgeneration a ha).2

/-- Connects of before are not of a later generation. -/
theorem Later.generation_le_of_lt (h : t.Later u) (ht : t.Dated) {ticket : Nat} {a : Attempt}
    (ha : u.started[ticket]? = some a) (hlt : ticket < t.started.length) :
    a.generation ≤ t.broker.pool.generation := by
  have hold := h.getElem?_started (List.getElem?_eq_getElem hlt)
  rw [ha] at hold
  cases hold
  exact ht _ (List.getElem_mem hlt)

/-- Connects started since are not of an earlier one. -/
theorem Later.le_generation_of_le (h : t.Later u) {ticket : Nat} {a : Attempt}
    (ha : u.started[ticket]? = some a) (hle : t.started.length ≤ ticket) :
    t.broker.pool.generation ≤ a.generation := by
  obtain ⟨more, hmore, hgeneration⟩ := h.started
  rw [hmore, List.getElem?_append_right hle] at ha
  exact (hgeneration a (List.mem_of_getElem? ha)).1

/-! ### Letting go of a link -/

theorem pool_drop (hc : t.callers[i]? = some c) {h : Handle} (hstage : c.stage = .holding h none) :
    (t.step (.caller i .drop)).broker.pool =
      t.broker.pool.checkin t.broker.network.clock h.generation h.link := by
  rw [step, hc]
  show (t.act i c .drop).broker.pool = _
  rw [act.eq_def, hstage]
  rfl

theorem Sound.made_of_holding (hs : t.Sound) (hc : t.callers[i]? = some c) {h : Handle}
    {exchange : Option Exchange} (hstage : c.stage = .holding h exchange) :
    t.Made h.link h.generation := by
  obtain ⟨_, _, hserves, -⟩ := hs.fits_stage hc hstage
  exact hserves.made

/-! ### After a reset -/

/-- A link that was in some place before came of a connect started before. -/
theorem Later.ticket_of_before (h : t.Later v) (ht : t.Sound) {id : Nat} (hplace : id ∈ t.places) :
    ∃ ticket < t.started.length, v.ticket? id = some ticket := by
  obtain ⟨ticket, hlt, hticket⟩ := ht.ticket_of_mem_places hplace
  exact ⟨ticket, hlt, h.ticket?_eq hticket⟩

section AfterReset

variable (hdated : t.Dated) (hreset : (t.step .reset).Later v)
include hdated hreset

/-- A link of before the reset belongs to an earlier generation than the pool. -/
theorem generation_lt_of_before {link : Link} {generation ticket : Nat}
    (hmade : v.Made link generation) (hticket : v.ticket? link.id = some ticket)
    (hlt : ticket < t.started.length) : generation < v.broker.pool.generation := by
  obtain ⟨_, attempt, hsame, hattempt, -, -, rfl⟩ := hmade
  cases hticket.symm.trans hsame
  have hle := ((later_step t .reset).trans hreset).generation_le_of_lt hdated hattempt hlt
  exact Nat.lt_of_le_of_lt hle hreset.generation

/-- **What is idle came of a connect started after the reset.** -/
theorem ticket_of_idle (hv : v.Sound) {d : Destination} {link : Link}
    (h : link ∈ v.broker.pool.idleTo d) :
    ∃ ticket, v.ticket? link.id = some ticket ∧ t.started.length ≤ ticket := by
  have hmade := (hv.rests d link h).made
  obtain ⟨ticket, _, hticket, -⟩ := id hmade
  refine ⟨ticket, hticket, Nat.le_of_not_lt fun hlt => ?_⟩
  exact Nat.lt_irrefl _ (generation_lt_of_before hdated hreset hmade hticket hlt)

/-- **A link of before the reset is not taken back.** -/
theorem drop_old (hv : v.Sound) (hc : v.callers[i]? = some c) {h : Handle}
    (hstage : c.stage = .holding h none) {ticket : Nat}
    (hticket : v.ticket? h.link.id = some ticket) (hlt : ticket < t.started.length) :
    (v.step (.caller i .drop)).broker.pool = v.broker.pool := by
  have hmade := hv.made_of_holding hc hstage
  have hgeneration := generation_lt_of_before hdated hreset hmade hticket hlt
  rw [pool_drop hc hstage]
  obtain heq | ⟨-, hsame, -, -⟩ :=
    v.broker.pool.checkin_eq_self_or v.broker.network.clock h.generation h.link
  · exact heq
  · exact absurd hsame (Nat.ne_of_gt hgeneration)

end AfterReset

/-- **A link whose connect was started after the last reset is taken back**, if it may be used again
and there is room. -/
theorem drop_new (hv : v.Sound) (hlater : t.Later v) (hdated : v.Dated)
    (hlast : v.broker.pool.generation = t.broker.pool.generation)
    (hc : v.callers[i]? = some c) {h : Handle} (hstage : c.stage = .holding h none)
    {ticket : Nat} (hticket : v.ticket? h.link.id = some ticket)
    (hle : t.started.length ≤ ticket) :
    (v.step (.caller i .drop)).broker.pool =
      if h.link.reusable = true ∧
          (v.broker.pool.idleTo h.link.destination).length < v.broker.pool.maxIdlePerHost then
        v.broker.pool.shelve h.link.destination
          ({ h.link with idleSince := v.broker.network.clock } ::
            v.broker.pool.idleTo h.link.destination)
      else v.broker.pool := by
  obtain ⟨_, attempt, hsame, hattempt, -, -, hgeneration⟩ := hv.made_of_holding hc hstage
  cases hticket.symm.trans hsame
  have hge := hlater.le_generation_of_le hattempt hle
  have hle := hdated attempt (List.mem_of_getElem? hattempt)
  have hpool : v.broker.pool.generation = h.generation := by omega
  rw [pool_drop hc hstage, Pool.checkin, hpool]
  simp only [beq_self_eq_true, Bool.and_true, Bool.and_eq_true, decide_eq_true_eq]

/-- **A reset does away with every link of before.**  Take any run up to a reset, and go on from
there in any way.  A link that is taken out then was in no place before the reset, and its connect
was started after it.  A link of before that is let go of then, or one whose connect had been
started, leaves the pool as it is.  And as long as no other reset follows, a link whose connect was
started after this one is taken back whenever it may be used again and there is room. -/
theorem reset_retires (routing : Routing) (maxIdlePerHost idleTimeout : Nat) (network : Network)
    (before after : List Action) :
    let t := (start routing maxIdlePerHost idleTimeout network).run before
    let v := (t.step .reset).run after
    (∀ clock d link, (v.broker.pool.checkout clock d).1 = some link →
      link.id ∉ t.places ∧
        ∃ ticket, v.ticket? link.id = some ticket ∧ t.started.length ≤ ticket) ∧
    (∀ (i : Nat) (c : Caller) (h : Handle),
      v.callers[i]? = some c → c.stage = .holding h none →
      (h.link.id ∈ t.places ∨ ∃ ticket < t.started.length, v.ticket? h.link.id = some ticket) →
      (v.step (.caller i .drop)).broker.pool = v.broker.pool) ∧
    (.reset ∉ after → ∀ (i : Nat) (c : Caller) (h : Handle) (ticket : Nat),
      v.callers[i]? = some c → c.stage = .holding h none →
      v.ticket? h.link.id = some ticket → t.started.length ≤ ticket →
      (v.step (.caller i .drop)).broker.pool =
        if h.link.reusable = true ∧
            (v.broker.pool.idleTo h.link.destination).length < maxIdlePerHost then
          v.broker.pool.shelve h.link.destination
            ({ h.link with idleSince := v.broker.network.clock } ::
              v.broker.pool.idleTo h.link.destination)
        else v.broker.pool) := by
  intro t v
  have hstart := sound_start routing maxIdlePerHost idleTimeout network
  have ht : t.Sound := sound_run hstart before
  have hv : v.Sound := sound_run (sound_step ht .reset) after
  have hreset : (t.step .reset).Later v := later_run _ after
  have hdated : t.Dated := (later_run _ before).dated fun _ h => absurd h List.not_mem_nil
  have hlater : t.Later v := (later_step t .reset).trans hreset
  refine ⟨fun clock d link hfound => ?_, fun i c h hc hstage hold => ?_,
    fun hlast i c h ticket hc hstage hticket hle => ?_⟩
  · have hidle := (v.broker.pool.checkout_takesOut clock d).mem_idleTo_of_found hfound
    obtain ⟨ticket, hticket, hle⟩ := ticket_of_idle hdated hreset hv hidle
    refine ⟨fun hplace => ?_, ticket, hticket, hle⟩
    obtain ⟨_, hlt, hsame⟩ := hlater.ticket_of_before ht hplace
    cases hticket.symm.trans hsame
    exact Nat.lt_irrefl _ (Nat.lt_of_lt_of_le hlt hle)
  · obtain ⟨ticket, hlt, hticket⟩ : ∃ ticket < t.started.length, v.ticket? h.link.id = some ticket :=
      hold.elim (hlater.ticket_of_before ht) id
    exact drop_old hdated hreset hv hc hstage hticket hlt
  · have hmax : v.broker.pool.maxIdlePerHost = maxIdlePerHost :=
      hlater.maxIdlePerHost.trans (later_run _ before).maxIdlePerHost
    rw [← hmax]
    exact drop_new hv hreset (hlater.dated hdated) (generation_run _ hlast) hc hstage hticket hle

/-- A page. -/
def page : Url := { scheme := "http", host := some (.name "example.com") }

/-- Someone holds a link. -/
def beforeReset : Traffic :=
  (start {} 8 90000 { dials := [.opens {}, .opens {}] }).run (visit 0 {} page)

/-- The pool has been reset, and someone else holds a link too. -/
def afterReset : Traffic := (beforeReset.step .reset).run (visit 1 {} page)

/-- The link with a number that a caller then holds, of that generation. -/
def pageHandle (number : Nat) : Handle where
  link := { id := number, destination := ⟨"http", "example.com", 80⟩, address := .loopback 3128 }
  generation := number
  reused := false

/-- Of the two links only the second is taken back. -/
theorem reset_retires_page :
    (afterReset.step (.caller 0 .drop)).broker.pool = afterReset.broker.pool ∧
      (afterReset.step (.caller 1 .drop)).broker.pool.idle =
        [{ (pageHandle 1).link with idleSince := 2 }] := by
  obtain ⟨-, hold, hnew⟩ := reset_retires {} 8 90000 { dials := [.opens {}, .opens {}] }
    (visit 0 {} page) (visit 1 {} page)
  have hfirst := hold 0 ⟨{}, { url := page }, .holding (pageHandle 0) none⟩ (pageHandle 0)
    (by decide) rfl (.inl (by decide))
  have hsecond := hnew (by simp [visit]) 1 ⟨{}, { url := page }, .holding (pageHandle 1) none⟩
    (pageHandle 1) 1 (by decide) rfl (by decide) (by decide)
  refine ⟨hfirst, (congrArg Pool.idle hsecond).trans ?_⟩
  decide

end HttpExchange.Traffic
