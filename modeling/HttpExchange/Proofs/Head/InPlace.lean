import Mathlib
import HttpExchange.Proofs.Head.Accepted
import HttpExchange.Proofs.Head.Finish
import HttpExchange.Proofs.Head.Plain

/-!
# Taking bytes in place

A reader that takes a byte gives a new reader and a new draft, or a fault and neither of them.  Here
bytes are taken in place: there is one reader and one draft, what a byte does to them is done one
thing after another, and what fails in the middle leaves all that was done before.  Two more causes
of failure come with that: the bytes of a method may be no text, and the bytes of a value may have
been taken off the token when there turns out to be no field for it.

* `Desk.takeByte`, `Desk.read` — the one byte and the call of the reader, in place;
* `Desk.Ready` / `run_takeByte` — in some phases something has to hold of the token or the draft, and
  then nothing that fails has done anything before;
* `run_read`, `after_eq_feedOn` — so that reading in place is reading, call after call, also after
  failures;
* `exists_failing_byte` — where a call fails;
* `refused_without_trace` — what is left there is what was there, but for the count.
-/

namespace HttpExchange.Head

/-- The one reader and the one draft. -/
structure Desk where
  reader : Reader
  draft : Draft
  deriving DecidableEq

/-- Why a byte is refused in place. -/
inductive Refusal
  | fault (fault : Fault)
  /-- The bytes of the method are not UTF-8. -/
  | methodNotText
  /-- A value has ended, and there is no field that it could be the value of. -/
  | valueWithoutField
  deriving DecidableEq

namespace Desk

/-- Something that is done to a desk.  Where it fails, the desk stays as it was just then. -/
abbrev Job (α : Type) := EStateM Refusal Desk α

/-- The desk at the start of a head. -/
def ofLimit (limit : Nat) : Desk := ⟨.ofLimit limit, {}⟩

/-- The desk with one more byte counted. -/
def counted (k : Desk) : Desk := { k with reader := k.reader.counted }

/-! ### Jobs -/

def refuse (fault : Fault) : Job Unit := throw (.fault fault)

def onReader (change : Reader → Reader) : Job Unit :=
  modify fun k => { k with reader := change k.reader }

def onDraft (change : Draft → Draft) : Job Unit :=
  modify fun k => { k with draft := change k.draft }

/-- Takes the token, of which nothing is left. -/
def takeToken : Job (List UInt8) := do
  let k ← get
  onReader ({ · with token := [] })
  return k.reader.token

/-- Takes the token as text. -/
def takeText : Job String := return Utf8.decode (← takeToken).reverse

/-- Ends the method: the token stays until its method is known. -/
def storeMethod : Job Unit := do
  let k ← get
  match Utf8.decode? k.reader.token.reverse with
  | none => throw .methodNotText
  | some name =>
    match Method.ofName? name with
    | none => refuse .method
    | some method =>
      onDraft ({ · with method })
      onReader ({ · with token := [] })
      onReader (·.goto .target)

/-- Ends a value at a line end: the token is taken before the field in front is looked at. -/
def storeValue (b : UInt8) : Job Unit := do
  let line := Utf8.decode ((← takeToken).dropWhile Blank.isPadding).reverse
  match (← get).draft.fields with
  | [] => throw .valueWithoutField
  | h :: older =>
    if (← get).reader.folding then
      onDraft ({ · with fields := { h with value := Reader.folded h.value line } :: older })
      onReader ({ · with folding := false })
    else
      onDraft ({ · with fields := { h with value := line } :: older })
    onReader (·.goto (if b = cr then .fieldLineEnd else .lineStart))

/-- Takes one byte. -/
def takeByte (b : UInt8) : Job Unit := do
  let k ← get
  match k.reader.phase with
  | .start =>
    if isLineEnd b then return
    else if isTokenByte b then
      onReader (·.push b)
      onReader (·.goto .method)
    else refuse .method
  | .method =>
    if b = 0x20 then storeMethod
    else if isTokenByte b then onReader (·.push b)
    else refuse .method
  | .target =>
    if b = 0x20 then
      if k.reader.token.isEmpty then refuse .target
      else
        let target ← takeText
        onDraft ({ · with target })
        onReader (·.goto .version)
    else if isLineEnd b then refuse .version
    else if isControl b then refuse .target
    else onReader (·.push b)
  | .version =>
    if isLineEnd b then
      if isHttpVersion k.reader.token.reverse then
        let version ← takeText
        onDraft ({ · with version })
        onReader (·.goto (if b = cr then .requestLineEnd else .lineStart))
      else refuse .version
    else if 8 ≤ k.reader.token.length then refuse .version
    else onReader (·.push b)
  | .requestLineEnd => if b = lf then onReader (·.goto .lineStart) else refuse .version
  | .lineStart =>
    if b = cr then onReader (·.goto .closing)
    else if b = lf then onReader (·.goto .done)
    else if Blank.isPadding b then
      if k.draft.fields.isEmpty then refuse .field
      else
        onReader ({ · with folding := true })
        onReader (·.goto .valueStart)
    else if isTokenByte b then
      onReader (·.push b)
      onReader (·.goto .fieldName)
    else refuse .field
  | .fieldName =>
    if b = 0x3A then
      let name ← takeText
      onDraft fun d => { d with fields := ⟨name, ""⟩ :: d.fields }
      onReader (·.goto .valueStart)
    else if isTokenByte b then onReader (·.push b)
    else refuse .field
  | .valueStart =>
    if Blank.isPadding b then return
    else if isLineEnd b then storeValue b
    else if isControl b then refuse .field
    else
      onReader (·.push b)
      onReader (·.goto .value)
  | .value =>
    if isLineEnd b then storeValue b
    else if b = 0x09 then onReader (·.push b)
    else if isControl b then refuse .field
    else onReader (·.push b)
  | .fieldLineEnd => if b = lf then onReader (·.goto .lineStart) else refuse .field
  | .closing => if b = lf then onReader (·.goto .done) else refuse .field
  | .done => return

/-- Takes bytes until the head ends, a byte is refused or the input is used up.  Gives the number of
bytes taken if the head has ended. -/
def readFrom (consumed : Nat) : Bytes → Job (Option Nat)
  | [] => return none
  | b :: rest => do
    onReader Reader.counted
    let k ← get
    if k.reader.limit < k.reader.seen then throw (.fault (.tooLarge k.reader.limit))
    else
      takeByte b
      if (← get).reader.phase = .done then return some (consumed + 1)
      else readFrom (consumed + 1) rest

/-- Takes one piece of input. -/
def read (input : Bytes) : Job (Option Nat) := do
  if (← get).reader.phase = .done then return some 0
  else readFrom 0 input

/-- What is left of a desk, whatever has come of the job. -/
def left {α : Type} : EStateM.Result Refusal Desk α → Desk
  | .ok _ k => k
  | .error _ k => k

/-- The desk after some pieces of input, whatever each of them has come to. -/
def after (k : Desk) : List Bytes → Desk
  | [] => k
  | piece :: rest => (left ((read piece).run k)).after rest

/-! ### One byte in place -/

/-- What a byte comes to in place if nothing is done where it is refused. -/
def outcome (k : Desk) : Except Fault (Reader × Draft) → EStateM.Result Refusal Desk Unit
  | .ok (r, d) => .ok () ⟨r, d⟩
  | .error fault => .error (.fault fault) k

/-- What has to hold for the next byte: the token is made of bytes of its phase, and where there is a
value there is a field. -/
structure Ready (k : Desk) : Prop where
  gathers : k.reader.Gathers
  field : k.reader.phase = .valueStart ∨ k.reader.phase = .value → k.draft.fields ≠ []

variable {k : Desk}

theorem ready_ofLimit (limit : Nat) : (ofLimit limit).Ready :=
  ⟨Reader.gathers_ofLimit limit, fun h => by rcases h with h | h <;> cases h⟩

theorem Ready.counted (h : k.Ready) : k.counted.Ready := ⟨h.gathers, h.field⟩

theorem decode?_of_ascii {bytes : Bytes} (h : ∀ b ∈ bytes, b.toNat ≤ 0x7F) :
    Utf8.decode? bytes = some (Utf8.decode bytes) := by
  have hdecode := Utf8.decode?_encode (Utf8.ascii bytes)
  rw [Utf8.encode_ascii h] at hdecode
  rw [hdecode, Utf8.decode_eq_ascii h]

/-- Token bytes are text, so that only an unknown name is refused. -/
theorem run_storeMethod (h : ∀ b ∈ k.reader.token, isTokenByte b = true) :
    storeMethod.run k = k.outcome (match Method.ofName? k.reader.tokenText with
      | some method => .ok (k.reader.take .target, { k.draft with method })
      | none => .error .method) := by
  have hname : Utf8.decode? k.reader.token.reverse = some k.reader.tokenText :=
    decode?_of_ascii fun b hb => toNat_le_of_isTokenByte (h b (List.mem_reverse.1 hb))
  simp only [storeMethod, EStateM.run_bind, EStateM.run_get, hname]
  cases Method.ofName? k.reader.tokenText <;> rfl

/-- With a field in front, a value can always be stored. -/
theorem run_storeValue (b : UInt8) (h : k.draft.fields ≠ []) :
    (storeValue b).run k = k.outcome (k.reader.finishValue k.draft b) := by
  obtain ⟨⟨phase, token, folding, seen, limit⟩, ⟨method, target, version, fields⟩⟩ := k
  cases fields with
  | nil => exact absurd rfl h
  | cons field older => cases folding <;> rfl

/-- **A byte in place**: it does what it does to a reader and a draft, and where it is refused, it
has done nothing. -/
theorem run_takeByte (b : UInt8) (hk : k.Ready) :
    (takeByte b).run k = k.outcome (k.reader.accept k.draft b) := by
  obtain ⟨⟨phase, token, folding, seen, limit⟩, d⟩ := k
  cases phase with
  | method =>
    simp only [Reader.accept, apply_ite (outcome _)]
    show EStateM.run (if _ then _ else _) _ = _
    split
    · exact run_storeMethod (k := ⟨⟨.method, token, folding, seen, limit⟩, d⟩) hk.gathers
    · split <;> rfl
  | valueStart =>
    simp only [Reader.accept, apply_ite (outcome _),
      ← run_storeValue b (k := ⟨⟨_, token, folding, seen, limit⟩, d⟩) (hk.field (.inl rfl))]
    show EStateM.run (if _ then _ else _) _ = _
    split_ifs <;> rfl
  | value =>
    simp only [Reader.accept, apply_ite (outcome _),
      ← run_storeValue b (k := ⟨⟨_, token, folding, seen, limit⟩, d⟩) (hk.field (.inr rfl))]
    show EStateM.run (if _ then _ else _) _ = _
    split_ifs <;> rfl
  | done => rfl
  | _ =>
    simp only [Reader.accept, apply_ite (outcome _)]
    show EStateM.run (if _ then _ else _) _ = _
    split_ifs <;> rfl

/-- **A byte that is taken leaves the desk ready for the next.** -/
theorem ready_accept {s : Reader} {e : Draft} {b : UInt8} (hk : k.Ready)
    (h : k.reader.accept k.draft b = .ok (s, e)) : Ready ⟨s, e⟩ := by
  refine ⟨(Reader.accepts h).gathers hk.gathers, fun hvalue => ?_⟩
  cases Reader.accepts h with
  | skipped | gathered => exact hk.field hvalue
  | valueBegun hphase => exact hk.field (.inl hphase)
  | continued _ _ hne => exact hne
  | nameEnded | valueEnded => exact List.cons_ne_nil _ _
  | versionEnded =>
    have hphase : (if b = cr then Phase.requestLineEnd else .lineStart) ≠ .valueStart ∧
        (if b = cr then Phase.requestLineEnd else .lineStart) ≠ .value := by
      split <;> decide
    exact absurd hvalue (not_or.2 hphase)
  | methodBegun | nameBegun | methodEnded | targetEnded | lineBegun | closed | headEnded =>
    rcases hvalue with hvalue | hvalue <;> cases hvalue

/-! ### Calls in place -/

/-- What a call comes to in place if it comes to this. -/
def result (p : Progress) : EStateM.Result Refusal Desk (Option Nat) :=
  match p.verdict with
  | .incomplete => .ok none ⟨p.reader, p.draft⟩
  | .complete consumed => .ok (some consumed) ⟨p.reader, p.draft⟩
  | .failed fault => .error (.fault fault) ⟨p.reader, p.draft⟩

theorem left_result (p : Progress) : left (result p) = ⟨p.reader, p.draft⟩ := by
  rw [result]
  split <;> rfl

theorem run_readFrom_cons (k : Desk) (consumed : Nat) (b : UInt8) (rest : Bytes) :
    (readFrom consumed (b :: rest)).run k =
      if k.reader.limit < k.reader.seen + 1 then
        .error (.fault (.tooLarge k.reader.limit)) k.counted
      else match (takeByte b).run k.counted with
        | .error refusal l => .error refusal l
        | .ok _ l =>
          if l.reader.phase = .done then .ok (some (consumed + 1)) l
          else (readFrom (consumed + 1) rest).run l := by
  show EStateM.run (if k.reader.limit < k.reader.seen + 1 then _ else _) k.counted = _
  split
  · rfl
  · rw [EStateM.run_bind]
    cases (takeByte b).run k.counted with
    | error refusal l => rfl
    | ok _ l =>
      show EStateM.run (if l.reader.phase = .done then _ else _) l =
        if l.reader.phase = .done then _ else _
      split <;> rfl

/-- What a call comes to in place, from some byte on, and that it leaves the desk ready. -/
theorem run_readFrom (hk : k.Ready) (consumed : Nat) (input : Bytes) :
    (readFrom consumed input).run k = result (k.reader.feedFrom k.draft consumed input) ∧
      (left (result (k.reader.feedFrom k.draft consumed input))).Ready := by
  induction input generalizing k consumed with
  | nil => exact ⟨rfl, hk⟩
  | cons b rest ih =>
    have hbyte := run_takeByte b hk.counted
    rw [run_readFrom_cons, hbyte, Reader.feedFrom_cons]
    split
    · exact ⟨rfl, hk.counted⟩
    · rw [show k.counted.reader.accept k.counted.draft b =
        k.reader.counted.accept k.draft b from rfl]
      cases haccept : k.reader.counted.accept k.draft b with
      | error fault => exact ⟨rfl, hk.counted⟩
      | ok p =>
        obtain ⟨s, e⟩ := p
        have hready : Ready ⟨s, e⟩ := ready_accept hk.counted haccept
        dsimp only [outcome]
        split
        · exact ⟨rfl, hready⟩
        · exact ih hready (consumed + 1)

/-- **Reading in place is reading**, and what is refused is refused for a fault of the head. -/
theorem run_read (hk : k.Ready) (input : Bytes) :
    (read input).run k = result (k.reader.feed k.draft input) ∧
      (left (result (k.reader.feed k.draft input))).Ready := by
  rw [Reader.feed]
  show EStateM.run (if k.reader.phase = .done then _ else _) k = _ ∧ _
  split
  · exact ⟨rfl, hk⟩
  · exact run_readFrom hk 0 input

/-- **Call after call**, whatever each of them comes to. -/
theorem after_eq_feedOn (hk : k.Ready) (pieces : List Bytes) :
    ((k.after pieces).reader, (k.after pieces).draft) = k.reader.feedOn k.draft pieces ∧
      (k.after pieces).Ready := by
  induction pieces generalizing k with
  | nil => exact ⟨rfl, hk⟩
  | cons piece rest ih =>
    obtain ⟨hrun, hready⟩ := run_read hk piece
    rw [after, hrun]
    rw [left_result] at hready ⊢
    exact ih hready

end Desk

/-! ### Where a call fails -/

namespace Reader

variable {r : Reader} {d : Draft} {input : Bytes} {fault : Fault}

/-- A byte that is taken has been counted, and that is all that becomes of the counts. -/
theorem counts_of_taken {s : Reader} {e : Draft} {b : UInt8}
    (h : r.counted.accept d b = .ok (s, e)) : s.seen = r.seen + 1 ∧ s.limit = r.limit := by
  have hcounts := counts_of_accept h
  constructor
  · rw [hcounts]
    rfl
  · rw [hcounts]
    rfl

/-- A call fails at one byte: those before it alone would have been taken, and of the one nothing is
left but that it was counted. -/
structure FailsAt (r : Reader) (d : Draft) (consumed : Nat) (input : Bytes) (fault : Fault)
    (i : Nat) (s : Reader) (e : Draft) : Prop where
  lt : i < input.length
  before : r.feedFrom d consumed (input.take i) = ⟨.incomplete, s, e⟩
  failed : r.feedFrom d consumed input = ⟨.failed fault, s.counted, e⟩
  seen : s.seen = r.seen + i
  limit : s.limit = r.limit
  cause : r.limit < s.seen + 1 ∧ fault = .tooLarge r.limit ∨
    s.seen + 1 ≤ r.limit ∧ s.counted.accept e input[i] = .error fault

/-- A call fails at the first byte. -/
theorem failsAt_zero {consumed : Nat} {b : UInt8} {rest : Bytes}
    (h : r.feedFrom d consumed (b :: rest) = ⟨.failed fault, r.counted, d⟩)
    (hcause : r.limit < r.seen + 1 ∧ fault = .tooLarge r.limit ∨
      r.seen + 1 ≤ r.limit ∧ r.counted.accept d b = .error fault) :
    r.FailsAt d consumed (b :: rest) fault 0 r d :=
  ⟨Nat.zero_lt_succ _, rfl, h, rfl, rfl, hcause⟩

/-- A call that fails after a byte which was taken fails at one further on. -/
theorem FailsAt.succ {consumed i : Nat} {b : UInt8} {rest : Bytes} {s t : Reader} {e f : Draft}
    (h : s.FailsAt e (consumed + 1) rest fault i t f) (hlimit : ¬r.limit < r.seen + 1)
    (haccept : r.counted.accept d b = .ok (s, e)) (hdone : s.phase ≠ .done) :
    r.FailsAt d consumed (b :: rest) fault (i + 1) t f := by
  have hstep (more : Bytes) :
      r.feedFrom d consumed (b :: more) = s.feedFrom e (consumed + 1) more := by
    rw [feedFrom_cons, if_neg hlimit, haccept]
    exact if_neg hdone
  obtain ⟨hseen, hsame⟩ := counts_of_taken haccept
  refine ⟨Nat.succ_lt_succ h.lt, ?_, ?_, ?_, h.limit.trans hsame, ?_⟩
  · rw [List.take_succ_cons, hstep]
    exact h.before
  · rw [hstep]
    exact h.failed
  · rw [h.seen, hseen]
    omega
  · rw [← hsame]
    exact h.cause

/-- **A call that fails does so at one byte.** -/
theorem exists_failing_byte {consumed : Nat}
    (h : (r.feedFrom d consumed input).verdict = .failed fault) :
    ∃ i s e, r.FailsAt d consumed input fault i s e := by
  induction input generalizing r d consumed with
  | nil => cases h
  | cons b rest ih =>
    rw [feedFrom_cons] at h
    by_cases hlimit : r.limit < r.seen + 1
    · rw [if_pos hlimit] at h
      cases h
      exact ⟨0, r, d, failsAt_zero (by rw [feedFrom_cons, if_pos hlimit]) (.inl ⟨hlimit, rfl⟩)⟩
    · rw [if_neg hlimit] at h
      cases haccept : r.counted.accept d b with
      | error refused =>
        rw [haccept] at h
        cases h
        exact ⟨0, r, d, failsAt_zero (by rw [feedFrom_cons, if_neg hlimit, haccept])
          (.inr ⟨Nat.le_of_not_lt hlimit, haccept⟩)⟩
      | ok p =>
        obtain ⟨s, e⟩ := p
        rw [haccept] at h
        dsimp only at h
        by_cases hdone : s.phase = .done
        · rw [if_pos hdone] at h
          cases h
        · rw [if_neg hdone] at h
          obtain ⟨i, t, f, hfails⟩ := ih h
          exact ⟨i + 1, t, f, hfails.succ hlimit haccept hdone⟩

end Reader

namespace Desk

/-- What fails in place fails in reading, for a fault of the head. -/
theorem exists_fault_of_result {p : Progress} {refusal : Refusal} {l : Desk}
    (h : result p = .error refusal l) :
    ∃ fault, refusal = .fault fault ∧ p.verdict = .failed fault ∧ l = ⟨p.reader, p.draft⟩ := by
  rw [result] at h
  split at h
  · cases h
  · cases h
  · next fault hverdict =>
    cases h
    exact ⟨fault, rfl, hverdict, rfl⟩

/-- **A failing byte leaves no trace.**  Take bytes in place, from the start of a head, in whatever
pieces and whatever each of them comes to.  The one reader and the one draft are then what reading
makes of these pieces, and the next piece comes to what it comes to in reading.  If it fails, and not
because the head is too large, it is for a fault of the head, never because a method is no text or a
value has no field; it fails at one byte, and the reader and the draft are as the bytes before that
one, which alone would all have been taken, have left them.  Only the count is one more. -/
theorem refused_without_trace (limit : Nat) (pieces : List Bytes) (input : Bytes) :
    let k := (ofLimit limit).after pieces
    (k.reader, k.draft) = (Reader.ofLimit limit).feedOn {} pieces ∧
    (read input).run k = result (k.reader.feed k.draft input) ∧
    ∀ refusal l, (read input).run k = .error refusal l →
      (∀ m, refusal ≠ .fault (.tooLarge m)) →
      (∃ fault, refusal = .fault fault) ∧
      ∃ i, ∃ h : i < input.length, ∃ mid,
        (read (input.take i)).run k = .ok none mid ∧ mid.reader.seen = k.reader.seen + i ∧
        l = mid.counted ∧ (takeByte input[i]).run mid.counted = .error refusal l := by
  intro k
  obtain ⟨hfeedOn, hk⟩ := after_eq_feedOn (ready_ofLimit limit) pieces
  obtain ⟨hrun, -⟩ := run_read hk input
  refine ⟨hfeedOn, hrun, fun refusal l herror hlarge => ?_⟩
  obtain ⟨fault, rfl, hverdict, rfl⟩ := exists_fault_of_result (hrun.symm.trans herror)
  refine ⟨⟨fault, rfl⟩, ?_⟩
  have hdone : k.reader.phase ≠ .done := by
    intro hdone
    rw [Reader.feed, if_pos hdone] at hverdict
    cases hverdict
  have hfeed (bytes : Bytes) := Reader.feed_of_not_done hdone k.draft bytes
  rw [hfeed] at hverdict ⊢
  obtain ⟨i, s, e, hfails⟩ := Reader.exists_failing_byte hverdict
  obtain ⟨htake, hready⟩ := run_read hk (input.take i)
  rw [hfeed, hfails.before] at htake hready
  rw [left_result] at hready
  refine ⟨i, hfails.lt, ⟨s, e⟩, htake, hfails.seen, ?_, ?_⟩
  · rw [hfails.failed]
    rfl
  · obtain ⟨-, hcause⟩ | ⟨-, haccept⟩ := hfails.cause
    · exact absurd (congrArg Refusal.fault hcause) (hlarge _)
    · rw [run_takeByte _ hready.counted, hfails.failed]
      exact congrArg (outcome _) haccept

/-- `GET / HTTP/1.1`, a field `A: b` and a NUL in its value. -/
def brokenField : Bytes :=
  [0x47, 0x45, 0x54, 0x20, 0x2F, 0x20, 0x48, 0x54, 0x54, 0x50, 0x2F, 0x31, 0x2E, 0x31, 0x0D, 0x0A,
    0x41, 0x3A, 0x20, 0x62, 0x00]

/-- More of that value, a field `E: f` and a NUL in it. -/
def brokenAgain : Bytes := [0x63, 0x0D, 0x0A, 0x45, 0x3A, 0x66, 0x00]

/-- What is left of the two: the value that went on, and a token that waits. -/
def twiceBroken : Desk where
  reader := { phase := .value, token := [0x66], seen := 28, limit := 64 }
  draft :=
    { method := .get, target := "/", version := "HTTP/1.1", fields := [⟨"E", ""⟩, ⟨"A", "bc"⟩] }

/-- Reading goes on after a failure, up to the next, which again leaves what was there before it. -/
theorem refused_without_trace_twice :
    (read brokenAgain).run ((ofLimit 64).after [brokenField]) =
        .error (.fault .field) twiceBroken ∧
      ∃ i, ∃ h : i < brokenAgain.length, ∃ mid,
        (read (brokenAgain.take i)).run ((ofLimit 64).after [brokenField]) = .ok none mid ∧
        twiceBroken = mid.counted ∧
        (takeByte brokenAgain[i]).run mid.counted = .error (.fault .field) twiceBroken := by
  have hrun : (read brokenAgain).run ((ofLimit 64).after [brokenField]) =
      .error (.fault .field) twiceBroken := by cbv
  obtain ⟨-, -, herror⟩ := refused_without_trace 64 [brokenField] brokenAgain
  obtain ⟨-, i, h, mid, htake, -, hleft, hbyte⟩ := herror _ _ hrun fun m => by simp
  exact ⟨hrun, i, h, mid, htake, hleft, hbyte⟩

end Desk

end HttpExchange.Head
