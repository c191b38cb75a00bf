import Mathlib.Data.List.Nodup
import HttpExchange.Pool

/-!
# What a pool has on its shelves

* `idle_perm` — the idle links are those under one destination and those on the other shelves;
* `Picks` / `exists_picks_checkout` — taking a link out finds the newest that has not expired;
* `TakesOut` / `checkout_takesOut` — what taking a link out leaves: the links that were put in
  before it under its destination, and everything under the others;
* `checkin_eq_self_or` — what taking a link back can do.
-/

namespace HttpExchange.Pool

/-! ### Shelves -/

theorem idleTo_eq_of_mem {p : Pool} {d : Destination} {links : List Link}
    (h : (d, links) ∈ p.shelves) : p.idleTo d = links := by
  have hdistinct := p.distinct
  rw [idleTo]
  generalize p.shelves = shelves at h hdistinct
  induction shelves with
  | nil => cases h
  | cons shelf rest ih =>
    obtain ⟨e, others⟩ := shelf
    rw [List.map_cons, List.nodup_cons] at hdistinct
    rw [List.lookup_cons]
    rcases List.mem_cons.1 h with heq | hrest
    · cases heq
      rw [beq_self_eq_true]
      rfl
    · have hne : d ≠ e := by
        rintro rfl
        exact hdistinct.1 (List.mem_map.2 ⟨_, hrest, rfl⟩)
      rw [beq_eq_false_iff_ne.2 hne]
      exact ih hrest hdistinct.2

theorem mem_shelves_of_mem_idleTo {p : Pool} {d : Destination} {link : Link}
    (h : link ∈ p.idleTo d) : ∃ links, (d, links) ∈ p.shelves ∧ link ∈ links := by
  rw [idleTo] at h
  cases hlookup : p.shelves.lookup d with
  | none =>
    rw [hlookup] at h
    cases h
  | some links =>
    rw [hlookup] at h
    obtain ⟨before, after, heq, -⟩ := List.lookup_eq_some_iff.1 hlookup
    exact ⟨links, by rw [heq]; simp, h⟩

theorem mem_idle_iff {p : Pool} {link : Link} : link ∈ p.idle ↔ ∃ d, link ∈ p.idleTo d := by
  rw [idle, List.mem_flatMap]
  constructor
  · rintro ⟨⟨d, links⟩, hshelf, hmem⟩
    exact ⟨d, by rw [idleTo_eq_of_mem hshelf]; exact hmem⟩
  · rintro ⟨d, hmem⟩
    obtain ⟨links, hshelf, hlink⟩ := mem_shelves_of_mem_idleTo hmem
    exact ⟨(d, links), hshelf, hlink⟩

/-- **The idle links are those under one destination and those on the other shelves.** -/
theorem idle_perm (p : Pool) (d : Destination) :
    p.idle.Perm (p.idleTo d ++ (p.otherShelves d).flatMap Prod.snd) := by
  have hdistinct := p.distinct
  rw [idle, idleTo, otherShelves]
  generalize p.shelves = shelves at hdistinct
  induction shelves with
  | nil => exact List.Perm.refl _
  | cons shelf rest ih =>
    obtain ⟨e, links⟩ := shelf
    rw [List.map_cons, List.nodup_cons] at hdistinct
    rw [List.flatMap_cons, List.lookup_cons]
    by_cases he : d = e
    · subst he
      have hothers : rest.filter (·.1 != d) = rest := by
        rw [List.filter_eq_self]
        intro shelf hshelf
        rw [bne_iff_ne]
        rintro rfl
        exact hdistinct.1 (List.mem_map.2 ⟨_, hshelf, rfl⟩)
      rw [beq_self_eq_true, List.filter_cons_of_neg (by simp), hothers]
      exact List.Perm.refl _
    · rw [beq_eq_false_iff_ne.2 he, List.filter_cons_of_pos (by simpa using Ne.symm he),
        List.flatMap_cons]
      exact ((ih hdistinct.2).append_left links).trans (List.perm_append_comm_assoc _ _ _)

theorem idle_shelve (p : Pool) (d : Destination) (links : List Link) :
    (p.shelve d links).idle = links ++ (p.otherShelves d).flatMap Prod.snd :=
  List.flatMap_cons

/-! ### Taking a link out -/

/-- What taking a link out for a destination comes to: of the links under it some of the newest are
dropped and the next is found, if any is left; the older ones stay, and so does everything else. -/
structure TakesOut (p : Pool) (d : Destination) (found : Option Link) (q : Pool) : Prop where
  newest : ∃ dropped, p.idleTo d = dropped ++ (found.toList ++ q.idleTo d)
  others : ∀ e, e ≠ d → q.idleTo e = p.idleTo e
  idle : ∃ dropped, p.idle.Perm (dropped ++ (found.toList ++ q.idle))
  addresses : q.addresses = p.addresses
  generation : q.generation = p.generation
  maxIdlePerHost : q.maxIdlePerHost = p.maxIdlePerHost

/-- What a search along a shelf comes to: of the links on it the first that fits is found, if one
does, and only those behind it are left. -/
structure Picks (fits : Link → Bool) (links passed : List Link) (found : Option Link)
    (left : List Link) : Prop where
  all : links = passed ++ (found.toList ++ left)
  unfit : ∀ link ∈ passed, fits link = false
  fit : ∀ link, found = some link → fits link = true
  emptied : found = none → left = []

/-- What is found is the first that fits. -/
theorem Picks.find?_eq {fits : Link → Bool} {links passed left : List Link} {found : Option Link}
    (h : Picks fits links passed found left) : links.find? fits = found := by
  have hpassed : passed.find? fits = none :=
    List.find?_eq_none.2 fun link hlink => by simp [h.unfit link hlink]
  rw [h.all, List.find?_append, hpassed, Option.none_or]
  cases found with
  | none => rw [h.emptied rfl]; rfl
  | some link => exact List.find?_cons_of_pos (h.fit link rfl)

theorem exists_picks_takeNewest (expired : Link → Bool) (links : List Link) :
    ∃ passed, Picks (!expired ·) links passed (takeNewest expired links).1
      (takeNewest expired links).2 := by
  induction links with
  | nil => exact ⟨[], rfl, List.forall_mem_nil _, fun _ h => (by cases h), fun _ => rfl⟩
  | cons newest rest ih =>
    rw [takeNewest]
    split
    · next hexpired =>
      obtain ⟨passed, hpicks⟩ := ih
      exact ⟨newest :: passed, congrArg (newest :: ·) hpicks.all,
        List.forall_mem_cons.2 ⟨by rw [hexpired]; rfl, hpicks.unfit⟩, hpicks.fit, hpicks.emptied⟩
    · next hrecent =>
      refine ⟨[], rfl, List.forall_mem_nil _, fun link hlink => ?_, fun h => (by cases h)⟩
      cases hlink
      rw [Bool.eq_false_iff.2 hrecent]
      rfl

/-- A checkout searches the shelf of the destination, if there is one. -/
theorem checkout_cases (p : Pool) (clock : Nat) (d : Destination) :
    (p.idleTo d = [] ∧ p.checkout clock d = (none, p)) ∨
      p.checkout clock d = ((takeNewest (p.isExpired clock) (p.idleTo d)).1,
        p.shelve d (takeNewest (p.isExpired clock) (p.idleTo d)).2) := by
  rw [checkout, idleTo]
  cases p.shelves.lookup d with
  | none => exact .inl ⟨rfl, rfl⟩
  | some links => exact .inr rfl

/-- **A checkout finds the newest link that has not expired.** -/
theorem exists_picks_checkout (p : Pool) (clock : Nat) (d : Destination) :
    ∃ passed, Picks (!p.isExpired clock ·) (p.idleTo d) passed (p.checkout clock d).1
      ((p.checkout clock d).2.idleTo d) := by
  obtain ⟨hnone, heq⟩ | heq := p.checkout_cases clock d
  · rw [heq, hnone]
    exact ⟨[], rfl, List.forall_mem_nil _, fun _ h => (by cases h), fun _ => rfl⟩
  · rw [heq, idleTo_shelve, if_pos rfl]
    exact exists_picks_takeNewest _ _

/-- **Only links under the destination are touched, and the newest first.** -/
theorem checkout_takesOut (p : Pool) (clock : Nat) (d : Destination) :
    p.TakesOut d (p.checkout clock d).1 (p.checkout clock d).2 := by
  obtain ⟨passed, hpicks⟩ := p.exists_picks_checkout clock d
  have hnewest := hpicks.all
  obtain ⟨-, heq⟩ | heq := p.checkout_cases clock d
  · rw [heq] at hnewest ⊢
    exact ⟨⟨passed, hnewest⟩, fun _ _ => rfl, ⟨[], .refl _⟩, rfl, rfl, rfl⟩
  · rw [heq] at hnewest ⊢
    refine ⟨⟨passed, hnewest⟩, fun e he => ?_, ⟨passed, ?_⟩, rfl, rfl, rfl⟩
    · rw [idleTo_shelve, if_neg he]
    · rw [idleTo_shelve, if_pos rfl] at hnewest
      rw [idle_shelve, ← List.append_assoc, ← List.append_assoc, List.append_assoc passed,
        ← hnewest]
      exact p.idle_perm d

@[simp]
theorem idleTimeout_checkout (p : Pool) (clock : Nat) (d : Destination) :
    (p.checkout clock d).2.idleTimeout = p.idleTimeout := by
  obtain ⟨-, heq⟩ | heq := p.checkout_cases clock d
  all_goals exact congrArg (·.2.idleTimeout) heq

namespace TakesOut

variable {p q : Pool} {d : Destination} {found : Option Link}

theorem mem_idleTo_of_found (h : p.TakesOut d found q) {link : Link} (hlink : found = some link) :
    link ∈ p.idleTo d := by
  obtain ⟨dropped, hdropped⟩ := h.newest
  rw [hdropped, hlink]
  simp

theorem sublist_idleTo (h : p.TakesOut d found q) (e : Destination) :
    (q.idleTo e).Sublist (p.idleTo e) := by
  by_cases he : e = d
  · subst he
    obtain ⟨dropped, hdropped⟩ := h.newest
    rw [hdropped]
    exact (List.sublist_append_right _ _).trans (List.sublist_append_right _ _)
  · rw [h.others e he]

end TakesOut

/-! ### Taking a link back -/

/-- A link is not taken back, or it is reusable, of the pool's generation and there is room for it;
then it is the newest under its destination. -/
theorem checkin_eq_self_or (p : Pool) (clock generation : Nat) (link : Link) :
    p.checkin clock generation link = p ∨
      (link.reusable = true ∧ p.generation = generation ∧
        (p.idleTo link.destination).length < p.maxIdlePerHost ∧
        p.checkin clock generation link =
          p.shelve link.destination
            ({ link with idleSince := clock } :: p.idleTo link.destination)) := by
  rw [checkin]
  split
  · next h =>
    rw [Bool.and_eq_true, Bool.and_eq_true, beq_iff_eq, decide_eq_true_eq] at h
    exact .inr ⟨h.1.1, h.1.2, h.2, rfl⟩
  · exact .inl rfl

@[simp]
theorem generation_checkin (p : Pool) (clock generation : Nat) (link : Link) :
    (p.checkin clock generation link).generation = p.generation := by
  rw [checkin]
  split <;> rfl

@[simp]
theorem maxIdlePerHost_checkin (p : Pool) (clock generation : Nat) (link : Link) :
    (p.checkin clock generation link).maxIdlePerHost = p.maxIdlePerHost := by
  rw [checkin]
  split <;> rfl

@[simp]
theorem addresses_checkin (p : Pool) (clock generation : Nat) (link : Link) :
    (p.checkin clock generation link).addresses = p.addresses := by
  rw [checkin]
  split <;> rfl

/-! ### Addresses -/

theorem mem_addresses_of_address? {p : Pool} {e : Endpoint} {a : Address}
    (h : p.address? e = some a) : (e, a) ∈ p.addresses := by
  obtain ⟨before, after, heq, -⟩ := List.lookup_eq_some_iff.1 h
  rw [heq]
  exact List.mem_append_right _ List.mem_cons_self

theorem address?_remember (p : Pool) (e f : Endpoint) (a : Address) :
    (p.remember e a).address? f = if f = e then some a else p.address? f := by
  rw [address?, remember, List.lookup_cons, lookup_filter_ne]
  by_cases h : f = e
  · simp [h]
  · rw [beq_eq_false_iff_ne.2 h, if_neg h, if_neg h, address?]

end HttpExchange.Pool
