import HttpExchange.Call.Redirect
import HttpExchange.Proofs.Header

/-!
# How a call goes

What a call does depends on the exchanges of its requests alone: `Chain.perform` goes through what
these come to, one after the other, and tells which requests are made and what the result is, once
there is one.  After so many exchanges that all led on, the call `Stands` at a chain; everything
here is said of where it stands, by induction on how it got there.

* `Chain.requests_getElem?`, `Chain.result?_iff` — a call makes the requests at which it stands, and
  ends where an exchange does not lead on;
* `Chain.exists_stands_iff` — where it stands is where the redirects lead (`Led`);
* `Chain.length_requests_le`, `Chain.isSome_result?` — it ends within the limit;
* `Chain.Stands.form` — what is left of the first request: all of its method, body and type, or a
  `GET` without the last two from the first redirect on that turns it into one.
-/

namespace HttpExchange

/-- The reply is a redirect, and says where to. -/
def Reply.SendsTo (r : Reply) (location : String) : Prop :=
  r.status ∈ [301, 302, 303, 307, 308] ∧ r.location? = some location

theorem Reply.isRedirect_iff (r : Reply) :
    r.isRedirect = true ↔ r.status ∈ [301, 302, 303, 307, 308] := List.contains_iff_mem

namespace Chain

variable {join : Url.Joining} {o : ClientOptions} {limit k : Nat} {c d e first : Chain}
  {outcome result : Except CallError Reply} {outcomes rest : List (Except CallError Reply)}

/-- What an exchange means for a call, whatever it has come to. -/
def onOutcome (join : Url.Joining) (o : ClientOptions) (limit : Nat) (c : Chain) :
    Except CallError Reply → Next
  | .error error => .finished (.error error)
  | .ok reply => c.onReply join o limit reply

/-- The requests that a call makes, and its result once it has one. -/
structure Course where
  requests : List Outgoing
  result? : Option (Except CallError Reply)

/-- How a call goes on, given what its exchanges come to.  Where the list is at its end the call
waits for an exchange; a call that is over does not look at the others. -/
def perform (join : Url.Joining) (o : ClientOptions) (limit : Nat) (c : Chain) :
    List (Except CallError Reply) → Course
  | [] => ⟨[c.request], none⟩
  | outcome :: rest => match c.onOutcome join o limit outcome with
    | .finished result => ⟨[c.request], some result⟩
    | .follow next =>
      let course := perform join o limit next rest
      { course with requests := c.request :: course.requests }

theorem perform_of_finished (h : c.onOutcome join o limit outcome = .finished result) :
    perform join o limit c (outcome :: rest) = ⟨[c.request], some result⟩ := by
  rw [perform, h]

theorem perform_of_follow (h : c.onOutcome join o limit outcome = .follow d) :
    perform join o limit c (outcome :: rest) =
      ⟨c.request :: (perform join o limit d rest).requests,
        (perform join o limit d rest).result?⟩ := by
  rw [perform, h]

/-! ### Where a call stands -/

/-- Where a call stands after `k` exchanges that all led on. -/
inductive Stands (join : Url.Joining) (o : ClientOptions) (limit : Nat) (first : Chain)
    (outcomes : List (Except CallError Reply)) : Nat → Chain → Prop
  | start : Stands join o limit first outcomes 0 first
  | next {k : Nat} {c d : Chain} {outcome : Except CallError Reply}
      (before : Stands join o limit first outcomes k c) (came : outcomes[k]? = some outcome)
      (leads : c.onOutcome join o limit outcome = .follow d) :
      Stands join o limit first outcomes (k + 1) d

theorem stands_zero_iff : Stands join o limit c outcomes 0 d ↔ d = c := by
  constructor
  · rintro ⟨⟩
    rfl
  · rintro rfl
    exact .start

/-- To have gone a way is to have gone its first step and then the others. -/
theorem stands_succ_iff : Stands join o limit c (outcome :: rest) (k + 1) d ↔
    ∃ e, c.onOutcome join o limit outcome = .follow e ∧ Stands join o limit e rest k d := by
  constructor
  · induction k generalizing d with
    | zero =>
      rintro (_ | ⟨before, came, leads⟩)
      cases before
      cases came
      exact ⟨d, leads, .start⟩
    | succ k ih =>
      rintro (_ | ⟨before, came, leads⟩)
      obtain ⟨e, hfirst, hothers⟩ := ih before
      exact ⟨e, hfirst, hothers.next came leads⟩
  · rintro ⟨e, hfirst, hothers⟩
    induction hothers with
    | start => exact Stands.start.next rfl hfirst
    | next _ came leads ih => exact ih.next came leads

theorem not_stands_succ_nil : ¬ Stands join o limit c [] (k + 1) d := by
  rintro (_ | ⟨-, came, -⟩)
  cases came

theorem not_stands_succ_of_finished (h : c.onOutcome join o limit outcome = .finished result) :
    ¬ Stands join o limit c (outcome :: rest) (k + 1) d := by
  rw [stands_succ_iff, h]
  rintro ⟨e, heq, -⟩
  cases heq

/-- What comes after does not matter to where a call stood. -/
theorem Stands.append (h : Stands join o limit first outcomes k d)
    (more : List (Except CallError Reply)) : Stands join o limit first (outcomes ++ more) k d := by
  induction h with
  | start => exact .start
  | next before came leads ih =>
    have hlt := (List.getElem?_eq_some_iff.1 came).1
    exact ih.next ((List.getElem?_append_left hlt).trans came) leads

/-- **A call makes the requests at which it stands.** -/
theorem requests_getElem? (join : Url.Joining) (o : ClientOptions) (limit : Nat) (c : Chain)
    (outcomes : List (Except CallError Reply)) (k : Nat) (r : Outgoing) :
    (perform join o limit c outcomes).requests[k]? = some r ↔
      ∃ d, Stands join o limit c outcomes k d ∧ d.request = r := by
  induction outcomes generalizing c k with
  | nil =>
    cases k with
    | zero => simp [perform, stands_zero_iff]
    | succ k => simp [perform, not_stands_succ_nil]
  | cons outcome rest ih =>
    cases h : c.onOutcome join o limit outcome with
    | finished result =>
      rw [perform_of_finished h]
      cases k with
      | zero => simp [stands_zero_iff]
      | succ k => simp [not_stands_succ_of_finished h]
    | follow next =>
      rw [perform_of_follow h]
      cases k with
      | zero => simp [stands_zero_iff]
      | succ k =>
        rw [List.getElem?_cons_succ, ih next k]
        simp only [stands_succ_iff, h, Next.follow.injEq, exists_eq_left']

/-- The first of them is the one that it was given. -/
theorem head?_requests (join : Url.Joining) (o : ClientOptions) (limit : Nat) (c : Chain)
    (outcomes : List (Except CallError Reply)) :
    (perform join o limit c outcomes).requests.head? = some c.request := by
  rw [List.head?_eq_getElem?]
  exact (requests_getElem? join o limit c outcomes 0 c.request).2 ⟨c, .start, rfl⟩

/-- **A call ends where an exchange does not lead on.** -/
theorem result?_iff (join : Url.Joining) (o : ClientOptions) (limit : Nat) (c : Chain)
    (outcomes : List (Except CallError Reply)) (result : Except CallError Reply) :
    (perform join o limit c outcomes).result? = some result ↔
      ∃ k d outcome, Stands join o limit c outcomes k d ∧ outcomes[k]? = some outcome ∧
        d.onOutcome join o limit outcome = .finished result := by
  induction outcomes generalizing c with
  | nil => simp [perform]
  | cons outcome rest ih =>
    cases h : c.onOutcome join o limit outcome with
    | finished found =>
      rw [perform_of_finished h, Option.some.injEq]
      constructor
      · rintro rfl
        exact ⟨0, c, outcome, .start, rfl, h⟩
      · rintro ⟨k, d, other, hd, came, hends⟩
        cases k with
        | zero =>
          cases hd
          cases came
          rw [h] at hends
          exact Next.finished.inj hends
        | succ k => exact absurd hd (not_stands_succ_of_finished h)
    | follow next =>
      rw [perform_of_follow h, ih next]
      constructor
      · rintro ⟨k, d, other, hd, came, hends⟩
        exact ⟨k + 1, d, other, stands_succ_iff.2 ⟨next, h, hd⟩, came, hends⟩
      · rintro ⟨k, d, other, hd, came, hends⟩
        cases k with
        | zero =>
          -- The first exchange leads on, so the call does not end there.
          cases hd
          cases came
          rw [h] at hends
          cases hends
        | succ k =>
          obtain ⟨e, heq, hrest⟩ := stands_succ_iff.1 hd
          rw [h] at heq
          cases heq
          exact ⟨k, d, other, hrest, came, hends⟩

/-- After exchanges that all led on, the others decide. -/
theorem result?_of_stands (h : Stands join o limit c outcomes outcomes.length d)
    (more : List (Except CallError Reply)) :
    (perform join o limit c (outcomes ++ more)).result? =
      (perform join o limit d more).result? := by
  induction outcomes generalizing c with
  | nil =>
    cases h
    rfl
  | cons outcome rest ih =>
    obtain ⟨e, hfirst, hothers⟩ := stands_succ_iff.1 h
    rw [List.cons_append, perform_of_follow hfirst]
    exact ih hothers

/-! ### Within the limit -/

/-- Only a reply leads on. -/
theorem onReply_of_onOutcome (h : c.onOutcome join o limit outcome = .follow d) :
    ∃ reply, outcome = .ok reply ∧ c.onReply join o limit reply = .follow d := by
  cases outcome with
  | error error => cases h
  | ok reply => exact ⟨reply, rfl, h⟩

/-- Each step on the way counts, and none is made beyond the limit. -/
theorem Stands.redirects (h : Stands join o limit first outcomes k d)
    (hfirst : first.redirects ≤ limit) :
    d.redirects = first.redirects + k ∧ d.redirects ≤ limit := by
  induction h with
  | start => exact ⟨rfl, hfirst⟩
  | next before came leads ih =>
    obtain ⟨reply, -, hfollow⟩ := onReply_of_onOutcome leads
    obtain ⟨hlt, hnext⟩ := redirects_of_follow hfollow
    omega

theorem length_requests_le (join : Url.Joining) (o : ClientOptions) (limit : Nat) (r : Outgoing)
    (outcomes : List (Except CallError Reply)) :
    (perform join o limit { request := r } outcomes).requests.length ≤ limit + 1 := by
  refine Nat.le_of_not_lt fun hlt => ?_
  -- It would stand where it cannot get.
  obtain ⟨d, hd, -⟩ := (requests_getElem? ..).1 (List.getElem?_eq_getElem hlt)
  obtain ⟨hcount, hle⟩ := hd.redirects (Nat.zero_le limit)
  simp only at hcount
  omega

/-- With an exchange more than there may be redirects, a call is over. -/
theorem isSome_result? (join : Url.Joining) (o : ClientOptions) (limit : Nat) (c : Chain)
    {outcomes : List (Except CallError Reply)} (h : limit - c.redirects < outcomes.length) :
    (perform join o limit c outcomes).result?.isSome = true := by
  induction outcomes generalizing c with
  | nil => exact absurd h (Nat.not_lt_zero _)
  | cons outcome rest ih =>
    cases hnext : c.onOutcome join o limit outcome with
    | finished result =>
      rw [perform_of_finished hnext]
      rfl
    | follow next =>
      obtain ⟨reply, -, hfollow⟩ := onReply_of_onOutcome hnext
      obtain ⟨hlt, hcount⟩ := redirects_of_follow hfollow
      rw [List.length_cons] at h
      rw [perform_of_follow hnext]
      exact ih next (by omega)

/-! ### Where the redirects lead -/

/-- The first `k` exchanges brought redirects that lead, one after the other, from the first URL to
this one. -/
inductive Led (join : Url.Joining) (first : Url) (outcomes : List (Except CallError Reply)) :
    Nat → Url → Prop
  | start : Led join first outcomes 0 first
  | next {k : Nat} {here there : Url} {reply : Reply} {location : String}
      (before : Led join first outcomes k here) (came : outcomes[k]? = some (.ok reply))
      (sends : reply.SendsTo location) (resolves : join here location = .ok there) :
      Led join first outcomes (k + 1) there

/-- A reply that ends a call that follows redirects. -/
theorem onReply_of_stays {reply : Reply} (h : ¬ ∃ location, reply.SendsTo location) :
    c.onReply join o limit reply = .finished (.ok reply) := by
  rw [onReply]
  split
  · next hboth =>
    have hredirect := (Reply.isRedirect_iff reply).1 (Bool.and_eq_true_iff.1 hboth).2
    cases hlocation : reply.location? with
    | none => rfl
    | some location => exact absurd ⟨location, hredirect, hlocation⟩ h
  · rfl

/-- A reply that sends a call elsewhere: first the limit is looked at, and then the URL. -/
theorem onReply_of_sends {reply : Reply} {location : String} (hfollows : o.followRedirects = true)
    (h : reply.SendsTo location) : c.onReply join o limit reply =
      if limit ≤ c.redirects then .finished (.error (.tooManyRedirects limit))
      else match join c.request.url location with
        | .error fault => .finished (.error (.badUrl (.unreadable location fault)))
        | .ok url => .follow ⟨redirected c.request reply.status url, c.redirects + 1⟩ := by
  rw [onReply, hfollows, (Reply.isRedirect_iff reply).2 h.1, h.2]
  rfl

/-- What leads a call on leads to another URL, with one redirect more. -/
theorem sends_of_follow {reply : Reply} (h : c.onReply join o limit reply = .follow d) :
    ∃ location, reply.SendsTo location ∧ join c.request.url location = .ok d.request.url ∧
      d.request = redirected c.request reply.status d.request.url := by
  simp only [onReply] at h
  split at h
  · next hboth =>
    have hredirect := (Reply.isRedirect_iff reply).1 (Bool.and_eq_true_iff.1 hboth).2
    split at h
    · cases h
    · next location hlocation =>
      split at h
      · cases h
      · split at h
        · cases h
        · next url hjoin =>
          cases h
          exact ⟨location, ⟨hredirect, hlocation⟩, hjoin, rfl⟩
  · cases h

theorem Stands.led (h : Stands join o limit first outcomes k d) :
    Led join first.request.url outcomes k d.request.url := by
  induction h with
  | start => exact .start
  | next before came leads ih =>
    obtain ⟨reply, rfl, hfollow⟩ := onReply_of_onOutcome leads
    obtain ⟨location, hsends, hjoin, -⟩ := sends_of_follow hfollow
    exact ih.next came hsends hjoin

theorem Led.exists_stands (hfollows : o.followRedirects = true) {r : Outgoing} {url : Url}
    (h : Led join r.url outcomes k url) (hle : k ≤ limit) :
    ∃ d, Stands join o limit { request := r } outcomes k d ∧ d.request.url = url := by
  induction h with
  | start => exact ⟨_, .start, rfl⟩
  | @next k here there reply location before came sends resolves ih =>
    obtain ⟨c, hc, rfl⟩ := ih (Nat.le_of_succ_le hle)
    have hcount : c.redirects = k := ((hc.redirects (Nat.zero_le limit)).1).trans (Nat.zero_add k)
    refine ⟨⟨redirected c.request reply.status there, c.redirects + 1⟩, hc.next came ?_, rfl⟩
    show c.onReply join o limit reply = _
    rw [onReply_of_sends hfollows sends, if_neg (by omega), resolves]

/-- **A call that follows redirects stands where they lead**, within the limit. -/
theorem exists_stands_iff (hfollows : o.followRedirects = true) {r : Outgoing} {url : Url} :
    (∃ d, Stands join o limit { request := r } outcomes k d ∧ d.request.url = url) ↔
      Led join r.url outcomes k url ∧ k ≤ limit := by
  constructor
  · rintro ⟨d, hd, rfl⟩
    obtain ⟨hcount, hle⟩ := hd.redirects (Nat.zero_le limit)
    simp only at hcount
    exact ⟨hd.led, by omega⟩
  · rintro ⟨hled, hle⟩
    exact hled.exists_stands hfollows hle

/-- Its requests go there, one after the other. -/
theorem requests_led_iff (hfollows : o.followRedirects = true) {first : Outgoing} {url : Url} :
    (∃ r, (perform join o limit { request := first } outcomes).requests[k]? = some r ∧
        r.url = url) ↔ Led join first.url outcomes k url ∧ k ≤ limit := by
  rw [← exists_stands_iff hfollows]
  constructor
  · rintro ⟨r, hr, hurl⟩
    obtain ⟨d, hd, rfl⟩ := (requests_getElem? ..).1 hr
    exact ⟨d, hd, hurl⟩
  · rintro ⟨d, hd, hurl⟩
    exact ⟨d.request, (requests_getElem? ..).2 ⟨d, hd, rfl⟩, hurl⟩

/-! ### Results -/

section Results

variable {r : Outgoing}

/-- Without redirects to follow, the first exchange is the only one. -/
theorem perform_of_not_follows (h : o.followRedirects = false)
    (outcomes : List (Except CallError Reply)) :
    perform join o limit { request := r } outcomes = ⟨[r], outcomes.head?⟩ := by
  cases outcomes with
  | nil => rfl
  | cons outcome rest =>
    refine perform_of_finished ?_
    cases outcome with
    | error error => rfl
    | ok reply =>
      show onReply join o limit _ reply = _
      rw [onReply, h]
      rfl

/-- Where a call stands that has come along redirects. -/
theorem Stands.led_le (h : Stands join o limit { request := r } outcomes k d) :
    Led join r.url outcomes k d.request.url ∧ d.redirects = k ∧ k ≤ limit := by
  obtain ⟨hcount, hle⟩ := h.redirects (Nat.zero_le limit)
  simp only at hcount
  exact ⟨h.led, by omega, by omega⟩

/-- **A call succeeds with the first reply that sends it nowhere.** -/
theorem result?_ok_iff (hfollows : o.followRedirects = true) {reply : Reply} :
    (perform join o limit { request := r } outcomes).result? = some (.ok reply) ↔
      ∃ k ≤ limit, ∃ url, Led join r.url outcomes k url ∧ outcomes[k]? = some (.ok reply) ∧
        ¬ ∃ location, reply.SendsTo location := by
  rw [result?_iff]
  constructor
  · rintro ⟨k, d, outcome, hd, came, hends⟩
    obtain ⟨hled, -, hle⟩ := hd.led_le
    cases outcome with
    | error error => cases hends
    | ok found =>
      have hstays : ¬ ∃ location, found.SendsTo location := by
        rintro ⟨location, hsends⟩
        rw [onOutcome, onReply_of_sends hfollows hsends] at hends
        repeat' split at hends
        all_goals cases hends
      rw [onOutcome, onReply_of_stays hstays] at hends
      cases hends
      exact ⟨k, hle, _, hled, came, hstays⟩
  · rintro ⟨k, hle, url, hled, came, hstays⟩
    obtain ⟨d, hd, -⟩ := hled.exists_stands hfollows hle
    exact ⟨k, d, _, hd, came, onReply_of_stays hstays⟩

/-- **A call fails with the first failure that it meets**: of an exchange, of a redirect with a
location that is no URL, or, where the limit is reached, of any redirect with a location. -/
theorem result?_error_iff (hfollows : o.followRedirects = true) {error : CallError} :
    (perform join o limit { request := r } outcomes).result? = some (.error error) ↔
      (∃ k ≤ limit, ∃ url, Led join r.url outcomes k url ∧ outcomes[k]? = some (.error error)) ∨
      (∃ k < limit, ∃ url reply location fault, Led join r.url outcomes k url ∧
        outcomes[k]? = some (.ok reply) ∧ reply.SendsTo location ∧
        join url location = .error fault ∧ error = .badUrl (.unreadable location fault)) ∨
      ∃ url reply location, Led join r.url outcomes limit url ∧
        outcomes[limit]? = some (.ok reply) ∧ reply.SendsTo location ∧
        error = .tooManyRedirects limit := by
  rw [result?_iff]
  constructor
  · rintro ⟨k, d, outcome, hd, came, hends⟩
    obtain ⟨hled, hcount, hle⟩ := hd.led_le
    cases outcome with
    | error met =>
      cases hends
      exact .inl ⟨k, hle, _, hled, came⟩
    | ok reply =>
      by_cases hstays : ∃ location, reply.SendsTo location
      · obtain ⟨location, hsends⟩ := hstays
        rw [onOutcome, onReply_of_sends hfollows hsends] at hends
        split at hends
        · next hlimit =>
          cases hends
          obtain rfl : k = limit := by omega
          exact .inr (.inr ⟨_, reply, location, hled, came, hsends, rfl⟩)
        · next hlimit =>
          split at hends
          · next fault hjoin =>
            cases hends
            exact .inr (.inl ⟨k, by omega, _, reply, location, fault, hled, came, hsends, hjoin,
              rfl⟩)
          · cases hends
      · rw [onOutcome, onReply_of_stays hstays] at hends
        cases hends
  · rintro (⟨k, hle, url, hled, came⟩ |
      ⟨k, hlt, url, reply, location, fault, hled, came, hsends, hjoin, rfl⟩ |
      ⟨url, reply, location, hled, came, hsends, rfl⟩)
    · obtain ⟨d, hd, -⟩ := hled.exists_stands hfollows hle
      exact ⟨k, d, _, hd, came, rfl⟩
    · obtain ⟨d, hd, rfl⟩ := hled.exists_stands hfollows (Nat.le_of_lt hlt)
      obtain ⟨-, hcount, -⟩ := hd.led_le
      refine ⟨k, d, _, hd, came, ?_⟩
      rw [onOutcome, onReply_of_sends hfollows hsends, if_neg (by omega), hjoin]
    · obtain ⟨d, hd, -⟩ := hled.exists_stands hfollows (Nat.le_refl limit)
      obtain ⟨-, hcount, -⟩ := hd.led_le
      refine ⟨limit, d, _, hd, came, ?_⟩
      rw [onOutcome, onReply_of_sends hfollows hsends, if_pos (Nat.le_of_eq hcount.symm)]

/-- If no exchange comes to that failure, a call comes to it just where the limit is reached. -/
theorem result?_tooManyRedirects_iff (hfollows : o.followRedirects = true)
    (hnone : .error (.tooManyRedirects limit) ∉ outcomes) :
    (perform join o limit { request := r } outcomes).result? =
        some (.error (.tooManyRedirects limit)) ↔
      ∃ url reply location, Led join r.url outcomes limit url ∧
        outcomes[limit]? = some (.ok reply) ∧ reply.SendsTo location := by
  rw [result?_error_iff hfollows]
  constructor
  · rintro (⟨k, -, url, -, came⟩ | ⟨k, -, url, reply, location, fault, -, -, -, -, heq⟩ |
      ⟨url, reply, location, hled, came, hsends, -⟩)
    · exact absurd (List.mem_of_getElem? came) hnone
    · cases heq
    · exact ⟨url, reply, location, hled, came, hsends⟩
  · rintro ⟨url, reply, location, hled, came, hsends⟩
    exact .inr (.inr ⟨url, reply, location, hled, came, hsends, rfl⟩)

end Results

/-! ### What is left of the first request -/

/-- What a request asks for beside its URL: the method, the body and the types given for it. -/
def form (r : Outgoing) : Method × Bytes × List String :=
  (r.method, r.body, r.headers.every "Content-Type")

/-- Some of the first `k` exchanges brought a redirect that turns the request into a `GET`: a 303
for any method but `HEAD`, a 301 or 302 for a `POST`. -/
def Switched (r : Outgoing) (outcomes : List (Except CallError Reply)) (k : Nat) : Prop :=
  r.method ≠ .head ∧ ∃ j < k, ∃ reply, outcomes[j]? = some (.ok reply) ∧
    (reply.status = 303 ∨ (reply.status = 301 ∨ reply.status = 302) ∧ r.method = .post)

theorem becomesGet_iff {status : Nat} {method : Method} : becomesGet status method = true ↔
    method ≠ .head ∧ (status = 303 ∨ (status = 301 ∨ status = 302) ∧ method = .post) := by
  simp [becomesGet, and_comm]

theorem not_switched_zero (r : Outgoing) : ¬ Switched r outcomes 0 := by
  rintro ⟨-, j, hj, -⟩
  exact Nat.not_lt_zero j hj

/-- One exchange more: the request was turned into a `GET` before, or is now. -/
theorem switched_succ_iff {r : Outgoing} {reply : Reply}
    (came : outcomes[k]? = some (.ok reply)) : Switched r outcomes (k + 1) ↔
      Switched r outcomes k ∨ becomesGet reply.status r.method = true := by
  rw [becomesGet_iff]
  constructor
  · rintro ⟨hhead, j, hj, other, hother, hstatus⟩
    rcases Nat.lt_succ_iff_lt_or_eq.1 hj with hlt | rfl
    · exact .inl ⟨hhead, j, hlt, other, hother, hstatus⟩
    · rw [came] at hother
      cases hother
      exact .inr ⟨hhead, hstatus⟩
  · rintro (⟨hhead, j, hj, hreply⟩ | ⟨hhead, hstatus⟩)
    · exact ⟨hhead, j, Nat.lt_succ_of_lt hj, hreply⟩
    · exact ⟨hhead, k, Nat.lt_succ_self k, reply, came, hstatus⟩

/-- **What a redirect does to the form of a request.**  Taking off what is meant for one host does
nothing to it. -/
theorem form_redirected (r : Outgoing) (status : Nat) (url : Url) :
    form (redirected r status url) =
      if becomesGet status r.method then (.get, [], []) else form r := by
  have hcredentials (r : Outgoing) : form (withoutCredentials r) = form r := by
    have htype : (withoutCredentials r).headers.every "Content-Type" =
        r.headers.every "Content-Type" := by
      show ((r.headers.without "Authorization").without "Host").every "Content-Type" = _
      rw [Headers.every_without_of_ne _ (by decide), Headers.every_without_of_ne _ (by decide)]
    rw [form, htype]
    rfl
  have hget : form (asGet r) = (.get, [], []) := by
    rw [form]
    show (Method.get, [], (r.headers.without "Content-Type").every "Content-Type") = _
    rw [Headers.every_without_self]
  have hnext : form (if becomesGet status r.method then asGet r else r) =
      if becomesGet status r.method then (.get, [], []) else form r := by
    rw [apply_ite form, hget]
  rw [← hnext, redirected]
  generalize (if becomesGet status r.method then asGet r else r) = next
  split
  · rfl
  · exact hcredentials next

/-- A `GET` without body and type stays one. -/
theorem form_redirected_of_get {r : Outgoing} (h : form r = (.get, [], [])) (status : Nat)
    (url : Url) : form (redirected r status url) = (.get, [], []) := by
  rw [form_redirected, h]
  exact ite_self _

/-- **What is left of the first request** where a call stands. -/
theorem Stands.form (h : Stands join o limit first outcomes k d) :
    (Switched first.request outcomes k → form d.request = (.get, [], [])) ∧
      (¬ Switched first.request outcomes k → form d.request = form first.request) := by
  induction h with
  | start => exact ⟨fun hswitched => absurd hswitched (not_switched_zero _), fun _ => rfl⟩
  | @next k c d outcome before came leads ih =>
    obtain ⟨reply, rfl, hfollow⟩ := onReply_of_onOutcome leads
    obtain ⟨-, -, -, hrequest⟩ := sends_of_follow hfollow
    obtain ⟨hget, hkept⟩ := ih
    rw [hrequest, switched_succ_iff came]
    by_cases hbefore : Switched first.request outcomes k
    · have hnow := form_redirected_of_get (hget hbefore) reply.status d.request.url
      exact ⟨fun _ => hnow, fun hnot => absurd (.inl hbefore) hnot⟩
    · have hmethod : c.request.method = first.request.method := congrArg Prod.fst (hkept hbefore)
      rw [form_redirected, hmethod, hkept hbefore]
      refine ⟨fun hor => if_pos (hor.resolve_left hbefore), fun hnot => if_neg fun hnow => ?_⟩
      exact hnot (.inr hnow)

/-- A form that is sent on by 307 and then answered elsewhere. -/
example :
    let form : Outgoing :=
      { method := .post, body := [0x31]
        url := { scheme := "http", host := some (.name "example.com"), path := .segments ["a"] } }
    let sentTo (status : Nat) (location : String) : Except CallError Reply :=
      .ok ⟨status, "", "HTTP/1.1", [⟨"Location", location⟩], []⟩
    (perform Url.join { followRedirects := true } 5 { request := form }
      [sentTo 307 "/other", sentTo 303 "/result"]).requests.map (fun r => (r.method, r.body)) =
        [(.post, [0x31]), (.post, [0x31]), (.get, [])] := by
  decide

end Chain

end HttpExchange
