import HttpExchange.Link

/-!
# The pool of idle links

A `Pool` keeps the links that wait for another request, those to one destination on one shelf and
the newest first, and the addresses that were looked up.  A reset starts a new generation: links
handed out before it do not come back.  A link comes back only if it is reusable, its generation is
the pool's and there is room on its shelf.
-/

namespace HttpExchange

/-- A host and a port to look up. -/
abbrev Endpoint := String × Nat

/-- Idle links, looked-up addresses and the generation.  Ages are in the unit of the clock that
the operations are given. -/
structure Pool where
  /-- The idle links under each destination, the newest first. -/
  shelves : List (Destination × List Link) := []
  /-- No destination has two shelves. -/
  distinct : (shelves.map Prod.fst).Nodup := by exact List.nodup_nil
  addresses : List (Endpoint × Address) := []
  generation : Nat := 0
  maxIdlePerHost : Nat := 8
  idleTimeout : Nat
  deriving DecidableEq, Repr

/-- A link in use: the generation it was handed out in and whether it had been used before. -/
structure Handle where
  link : Link
  generation : Nat
  reused : Bool
  deriving DecidableEq, Repr

namespace Pool

/-- The idle links under a destination, newest first. -/
def idleTo (p : Pool) (d : Destination) : List Link := (p.shelves.lookup d).getD []

/-- All idle links. -/
def idle (p : Pool) : List Link := p.shelves.flatMap Prod.snd

/-- The shelves but one. -/
def otherShelves (p : Pool) (d : Destination) : List (Destination × List Link) :=
  p.shelves.filter (·.1 != d)

theorem distinct_cons_otherShelves (p : Pool) (d : Destination) (links : List Link) :
    (((d, links) :: p.otherShelves d).map Prod.fst).Nodup := by
  rw [List.map_cons, List.nodup_cons]
  refine ⟨?_, (List.filter_sublist.map Prod.fst).nodup p.distinct⟩
  intro hmem
  obtain ⟨shelf, hshelf, heq⟩ := List.mem_map.1 hmem
  exact bne_iff_ne.1 (List.mem_filter.1 hshelf).2 heq

/-- Puts links under a destination, in place of those that were there. -/
def shelve (p : Pool) (d : Destination) (links : List Link) : Pool :=
  { p with
    shelves := (d, links) :: p.otherShelves d
    distinct := p.distinct_cons_otherShelves d links }

/-- Whether a link has been idle for too long. -/
def isExpired (p : Pool) (clock : Nat) (link : Link) : Bool :=
  p.idleTimeout < clock - link.idleSince

/-- Takes the newest link that has not expired; the expired ones before it are dropped. -/
def takeNewest (expired : Link → Bool) : List Link → Option Link × List Link
  | [] => (none, [])
  | link :: older => if expired link then takeNewest expired older else (some link, older)

/-- Takes an idle link to a destination out of the pool. -/
def checkout (p : Pool) (clock : Nat) (d : Destination) : Option Link × Pool :=
  match p.shelves.lookup d with
  | none => (none, p)
  | some links =>
    let (found, older) := takeNewest (p.isExpired clock) links
    (found, p.shelve d older)

/-- Takes a link back, unless it cannot be used again, comes from before a reset or finds no
room. -/
def checkin (p : Pool) (clock : Nat) (generation : Nat) (link : Link) : Pool :=
  if link.reusable && p.generation == generation
      && (p.idleTo link.destination).length < p.maxIdlePerHost then
    p.shelve link.destination ({ link with idleSince := clock } :: p.idleTo link.destination)
  else p

/-- The address looked up before for a host and a port. -/
def address? (p : Pool) (e : Endpoint) : Option Address := p.addresses.lookup e

/-- Keeps an address, in place of any other for the same host and port. -/
def remember (p : Pool) (e : Endpoint) (a : Address) : Pool :=
  { p with addresses := (e, a) :: p.addresses.filter (·.1 != e) }

/-- Forgets every address. -/
def forget (p : Pool) : Pool := { p with addresses := [] }

/-- Drops every idle link and every address, and starts a new generation. -/
def reset (p : Pool) : Pool :=
  { p with shelves := [], distinct := List.nodup_nil, addresses := [],
           generation := p.generation + 1 }

/-- How many links are idle. -/
def idleCount (p : Pool) : Nat := p.idle.length

/-! ### What is under a destination -/

theorem lookup_filter_ne {α β : Type} [BEq α] [LawfulBEq α] [DecidableEq α]
    (entries : List (α × β)) (d e : α) :
    (entries.filter (·.1 != d)).lookup e = if e = d then none else entries.lookup e := by
  induction entries with
  | nil => simp
  | cons entry rest ih =>
    obtain ⟨k, value⟩ := entry
    by_cases hk : k = d
    · subst hk
      rw [List.filter_cons_of_neg (by simp), ih, List.lookup_cons]
      split
      · rfl
      · next hne => rw [beq_eq_false_iff_ne.2 hne]
    · rw [List.filter_cons_of_pos (by simpa using hk), List.lookup_cons, List.lookup_cons, ih]
      by_cases he : e = k
      · subst he
        simp [hk]
      · rw [beq_eq_false_iff_ne.2 he]

@[simp]
theorem idleTo_shelve (p : Pool) (d e : Destination) (links : List Link) :
    (p.shelve d links).idleTo e = if e = d then links else p.idleTo e := by
  rw [idleTo, shelve, List.lookup_cons, otherShelves, lookup_filter_ne]
  by_cases h : e = d
  · simp [h]
  · rw [beq_eq_false_iff_ne.2 h, if_neg h, if_neg h, idleTo]

theorem length_takeNewest_lt {expired : Link → Bool} {links older : List Link} {link : Link}
    (h : takeNewest expired links = (some link, older)) : older.length < links.length := by
  induction links with
  | nil => cases h
  | cons newest rest ih =>
    rw [takeNewest] at h
    split at h
    · exact Nat.lt_succ_of_lt (ih h)
    · cases h
      exact Nat.lt_succ_self _

/-- A link that is taken out is no longer there. -/
theorem length_idleTo_checkout_lt {p q : Pool} {clock : Nat} {d : Destination} {link : Link}
    (h : p.checkout clock d = (some link, q)) :
    (q.idleTo d).length < (p.idleTo d).length := by
  rw [checkout] at h
  split at h
  · cases h
  · next links hlinks =>
    simp only [Prod.mk.injEq] at h
    obtain ⟨hlink, rfl⟩ := h
    rw [idleTo_shelve, if_pos rfl, idleTo, hlinks]
    exact length_takeNewest_lt (Prod.ext hlink rfl)

end Pool

end HttpExchange
