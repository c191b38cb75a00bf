import HttpExchange.Proofs.Traffic.Addresses
import HttpExchange.Proofs.Traffic.Reset

/-!
# What is left of addresses that were forgotten

The addresses that are kept can be forgotten, alone or with a reset of the pool.  Who asks for a
link after that goes on with what is heard of the resolver from then on, and a link keeps the address
that it was made with (`strokes_forgotten`).

Two things outlast it (`strokes_forgotten_fails`).  A lookup that is under way is answered later,
and what it brings is kept.  And a link that is idle keeps its address, unless the pool was reset.
-/

namespace HttpExchange.Traffic

open scoped List

variable {t v : Traffic} {i k n : Nat} {c : Caller}

/-! ### Links that were idle -/

/-- The links which callers from some number on have found idle came of connects from some number
on. -/
def Renewed (t : Traffic) (n k : Nat) : Prop :=
  ∀ (i : Nat) (c : Caller) (h : Handle), n ≤ i → t.callers[i]? = some c →
    c.stage.handle? = some h → h.reused = true →
      ∃ ticket, t.ticket? h.link.id = some ticket ∧ k ≤ ticket

theorem renewed_stroke (hv : v.Sound)
    (hidle : ∀ link ∈ v.broker.pool.idle, ∃ ticket, v.ticket? link.id = some ticket ∧ k ≤ ticket)
    (h : v.Renewed n k) (s : Stroke) : (v.stroke s).Renewed n k := by
  intro i d held hle hd hheld hreused
  have later : v.Later (v.stroke s) := later_stroke hv s
  -- A link that came of such a connect before the stroke still does.
  have hkept : (∃ ticket, v.ticket? held.link.id = some ticket ∧ k ≤ ticket) →
      ∃ ticket, (v.stroke s).ticket? held.link.id = some ticket ∧ k ≤ ticket :=
    fun ⟨ticket, hticket, hk⟩ => ⟨ticket, later.ticket?_eq hticket, hk⟩
  refine hkept ?_
  obtain hold | hnew | ⟨-, c, hc, hpasses⟩ := callers_stroke hv s hd
  · exact h i d held hle hold hheld hreused
  · rw [hnew.handle?_eq] at hheld
    cases hheld
  · have hbefore := h i c
    generalize c.stage = before at hbefore hpasses
    generalize d.stage = stage at hheld hpasses
    cases hpasses with
    | stays => exact hbefore held hle hc hheld hreused
    | took found =>
      cases hheld
      exact hidle _ found
    | looked => exact hbefore held hle hc hheld hreused
    | connected _ _ first =>
      cases hheld
      cases first.symm.trans hreused
    | @touched before _ p _ leaves =>
      cases hheld
      rw [leaves.id_eq]
      exact hbefore before hle hc rfl hreused
    | abandoned => exact hbefore held hle hc hheld hreused
    | parted => cases hheld
    | without _ none => cases none.symm.trans hheld

/-- **After a reset** nobody who comes finds a link whose connect was started before it. -/
theorem renewed_strokes (ht : t.Sound) (hdated : t.Dated) (list : List Stroke) :
    ((t.step .reset).strokes list).Renewed t.callers.length t.started.length := by
  have hreset : (t.step .reset).Sound := sound_step ht .reset
  induction list using List.reverseRecOn with
  | nil =>
    intro i c h hle hc
    have hnone : (t.step .reset).callers[i]? = none := List.getElem?_eq_none hle
    cases hc.symm.trans hnone
  | append_singleton list s ih =>
    have hv := sound_strokes hreset list
    have later := later_strokes hreset list
    rw [strokes_concat]
    refine renewed_stroke hv (fun link hlink => ?_) ih s
    obtain ⟨d, hd⟩ := Pool.mem_idle_iff.1 hlink
    exact ticket_of_idle hdated later hv hd

/-! ### Addresses that were kept -/

/-- The link in a caller's hand has come of a connect to its address. -/
theorem Sound.made_of_handle? (ht : t.Sound) (hc : t.callers[i]? = some c) {h : Handle}
    (hheld : c.stage.handle? = some h) : t.Made h.link h.generation := by
  cases hstage : c.stage with
  | probing route held =>
    rw [hstage] at hheld
    cases hheld
    exact (ht.fits_stage hc hstage).2.made
  | holding held exchange =>
    rw [hstage] at hheld
    cases hheld
    obtain ⟨_, -, hserves, -⟩ := ht.fits_stage hc hstage
    exact hserves.made
  | _ =>
    rw [hstage] at hheld
    cases hheld

/-- **Who comes after the addresses were forgotten** goes on with none of them.  Every address that
it connects to, and that of every new link it gets, is one that the resolver has given since then:
to itself, or to another if its request may use what is kept.  Whoever was given it had asked since
then too, or was waiting for the resolver at that moment.

Links keep the addresses that they were made with.  To forget the addresses changes nothing else, and
least of all what is idle; the link that it gets, be it new or found idle, goes to the address of the
connect that it came of; and after a reset that connect was started since then. -/
theorem strokes_forgotten (routing : Routing) (maxIdlePerHost idleTimeout : Nat) (network : Network)
    (before after : List Stroke) {clear : Action} {i : Nat} {c : Caller} :
    let t := (start routing maxIdlePerHost idleTimeout network).strokes before
    let w := t.step clear
    let v := w.strokes after
    clear = .forget ∨ clear = .reset → t.callers.length ≤ i → v.callers[i]? = some c →
    (∀ e a, c.stage.aim? = some (e, a) →
      w.Hears after i e a ∨ (c.options.cacheAddresses = true ∧ ∃ j, w.Hears after j e a)) ∧
    (clear = .forget →
      w = { t with broker := { t.broker with pool := { t.broker.pool with addresses := [] } } }) ∧
    ∀ h, c.stage.handle? = some h → ∃ ticket attempt,
      v.ticket? h.link.id = some ticket ∧ v.started[ticket]? = some attempt ∧
      attempt.address = h.link.address ∧
      (clear = .reset → h.reused = true → t.started.length ≤ ticket) := by
  intro t w v hclear hle hc
  have hfirst := sound_start routing maxIdlePerHost idleTimeout network
  have ht : t.Sound := sound_strokes hfirst before
  have hw : w.Sound := sound_step ht clear
  have hcleared : w.broker.pool.addresses = [] ∧ w.callers = t.callers := by
    rcases hclear with rfl | rfl <;> exact ⟨rfl, rfl⟩
  obtain ⟨hnone, hcallers⟩ := hcleared
  refine ⟨fun e a haim => ?_, fun hforget => by subst hforget; rfl, fun h hhandle => ?_⟩
  · exact (known_strokes hw hnone after).aims i c (hcallers ▸ hle) hc e a haim
  · obtain ⟨ticket, attempt, hticket, hattempt, -, haddress, -⟩ :=
      (sound_strokes hw after).made_of_handle? hc hhandle
    refine ⟨ticket, attempt, hticket, hattempt, haddress, fun hreset hreused => ?_⟩
    subst hreset
    have hdated : t.Dated :=
      (later_strokes hfirst before).dated fun _ h => absurd h List.not_mem_nil
    obtain ⟨found, hfound, hlater⟩ := renewed_strokes ht hdated after i c h hle hc hhandle hreused
    cases hticket.symm.trans hfound
    exact hlater

/-- A client whose requests may use the addresses that are kept. -/
def caching : ClientOptions := { cacheAddresses := true }

/-- The host and port of the page. -/
def pageEndpoint : Endpoint := ("example.com", 80)

/-- Someone has got a link to the page, the pool is reset, and someone else gets one: for that, too,
the resolver was asked, and it came of a connect to that address. -/
theorem strokes_forgotten_page :
    let w := ((start {} 8 90000 { dials := [.opens {}, .opens {}] }).strokes
      ((visit 0 caching page).map .action)).step .reset
    let after := (visit 1 caching page).map .action
    (w.strokes after).callers[1]? =
        some ⟨caching, { url := page }, .holding (pageHandle 1) none⟩ ∧
      (∃ j, w.Hears after j pageEndpoint (.loopback 3128)) ∧
      ∃ (ticket : Nat) (attempt : Attempt), (w.strokes after).started[ticket]? = some attempt ∧
        attempt.address = .loopback 3128 := by
  have hc : ((((start {} 8 90000 { dials := [.opens {}, .opens {}] }).strokes
      ((visit 0 caching page).map .action)).step .reset).strokes
        ((visit 1 caching page).map .action)).callers[1]? =
          some ⟨caching, { url := page }, .holding (pageHandle 1) none⟩ := by decide
  obtain ⟨hears, -, hmade⟩ := strokes_forgotten {} 8 90000 { dials := [.opens {}, .opens {}] }
    ((visit 0 caching page).map .action) ((visit 1 caching page).map .action) (.inr rfl)
    (by decide) hc
  obtain ⟨ticket, attempt, -, hattempt, haddress, -⟩ := hmade (pageHandle 1) rfl
  refine ⟨hc, ?_, ticket, attempt, hattempt, haddress⟩
  obtain hears | ⟨-, hears⟩ := hears pageEndpoint (.loopback 3128) rfl
  · exact ⟨1, hears⟩
  · exact hears

/-! ### Two that outlast it -/

/-- Somebody asks for a link to the page, finds none and looks for the address. -/
def seek (i : Nat) : List Action :=
  [.ask caching { url := page }, .caller i .take, .caller i .locate]

/-- The way to the page. -/
def pageRoute : Route := ⟨⟨"http", "example.com", 80⟩, false⟩

/-- The beginning where a far end keeps silent. -/
def quiet : Traffic := start {} 8 90000 { dials := [.opens { reads := [.hang] }] }

/-- The resolver answers whom it was asked by, and somebody else comes. -/
def lateAnswer : List Action := .caller 0 (.answer (.ok (.loopback 3128))) :: seek 1

/-- A link is made with an address that was kept, and let go of. -/
def keptLink : List Action :=
  seek 0 ++ (lateAnswer ++ [.caller 1 .dial, .caller 1 .connect, .caller 1 .drop])

/-- Somebody comes and takes a link that is idle. -/
def come (i : Nat) : List Action := [.ask caching { url := page }, .caller i .take]

/-- What the third one finds. -/
def foundIdle : Handle :=
  { pageHandle 0 with link := { (pageHandle 0).link with idleSince := 2 }, reused := true }

/-- **A lookup that is under way outlasts it**: what it brings is kept, and found by one who comes
later.  **So does the address of an idle link**, as long as the pool is not reset: here it was kept
from before, and nobody asks again. -/
theorem strokes_forgotten_fails :
    (∀ clear, clear = .forget ∨ clear = .reset →
      let t := quiet.run (seek 0)
      let w := t.step clear
      t.awaited? 0 = some pageEndpoint ∧ t.callers.length = 1 ∧
      (w.run lateAnswer).callers[1]? =
        some ⟨caching, { url := page }, .located pageRoute (.loopback 3128)⟩ ∧
      w.inquiries (lateAnswer.map .action) = [.heard 0 pageEndpoint (.loopback 3128)]) ∧
    let t := quiet.run keptLink
    let w := t.step .forget
    quiet.inquiries (keptLink.map .action) =
      [.asked 0 pageEndpoint, .heard 0 pageEndpoint (.loopback 3128)] ∧
    t.callers.length = 2 ∧
    (∃ c, (w.run (come 2 ++ [.caller 2 .probe])).callers[2]? = some c ∧
      c.stage = .holding foundIdle none) ∧
    foundIdle.link.address = .loopback 3128 ∧
    w.inquiries ((come 2 ++ [Action.caller 2 .probe]).map .action) = [] := by
  refine ⟨?_, by decide, by decide, ?_, rfl, by decide⟩
  · rintro clear (rfl | rfl) <;> decide
  · have hfound : (((quiet.run keptLink).step .forget).run (come 2)).callers[2]? =
        some ⟨caching, { url := page }, .probing pageRoute foundIdle⟩ := by decide
    rw [callers_run_probe hfound rfl rfl (by decide)]
    exact ⟨_, getElem?_turn hfound _, rfl⟩

end HttpExchange.Traffic
