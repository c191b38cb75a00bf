import HttpExchange.Proofs.Head.Accepted
import HttpExchange.Proofs.Head.Grammar
import HttpExchange.Proofs.Head.InPlace

/-!
# How much a reader holds

The limit of a reader is on the bytes that it looks at, those that it refuses among them.  What it
holds of them is counted in other units: bytes of the token, and characters of texts, into which
bytes of any kind are decoded, from which padding is dropped and into which a space is put wherever a
line is folded.

* `Reader.Fate`, `Reader.fatesOn` — what becomes of every byte that is looked at, over any number of
  calls;
* `Reader.stored` / `stored_accept` — what is held grows by no more than one with a byte, where the
  space of a folded line is owed by the byte at its start;
* `Reader.Tally` — what holds of the counts, kept by each of the three fates (`Tally.taken`,
  `Tally.refused`, `Tally.overLimit`) and so by calls (`tally_feedOn`);
* `feedOn_overLimit` — beyond the limit a reader stays as it is;
* `bounded_feedOn` — all of that from the start of a head.
-/

namespace HttpExchange

/-- The characters of a field. -/
def Header.letters (h : Header) : Nat := h.name.length + h.value.length

namespace Head

/-- The characters of the texts of a draft. -/
def Draft.letters (d : Draft) : Nat :=
  d.target.length + d.version.length + (d.fields.map Header.letters).sum

theorem Draft.letters_cons (d : Draft) (h : Header) (older : List Header) :
    { d with fields := h :: older : Draft }.letters =
      h.letters + { d with fields := older : Draft }.letters := by
  simp only [letters, List.map_cons, List.sum_cons]
  omega

theorem Draft.letters_target_le (d : Draft) (target : String) :
    { d with target : Draft }.letters ≤ target.length + d.letters := by
  simp only [letters]
  omega

theorem Draft.letters_version_le (d : Draft) (version : String) :
    { d with version : Draft }.letters ≤ version.length + d.letters := by
  simp only [letters]
  omega

namespace Reader

/-! ### The fates of bytes -/

/-- What becomes of a byte that is looked at. -/
inductive Fate
  | taken
  | refused
  /-- It is beyond the limit, and nothing more is asked of it. -/
  | overLimit
  deriving DecidableEq

/-- Whether a byte is acted on: it is taken or refused for what it is. -/
def Fate.acts (f : Fate) : Bool := f != .overLimit

/-- The fates of the bytes that a call looks at, from some byte on. -/
def fatesFrom (r : Reader) (d : Draft) : Bytes → List Fate
  | [] => []
  | b :: rest =>
    if r.limit < r.seen + 1 then [.overLimit]
    else match r.counted.accept d b with
      | .error _ => [.refused]
      | .ok (s, e) => .taken :: if s.phase = .done then [] else s.fatesFrom e rest

/-- The fates of the bytes that a call looks at. -/
def fates (r : Reader) (d : Draft) (input : Bytes) : List Fate :=
  if r.phase = .done then [] else r.fatesFrom d input

/-- The fates of the bytes that are looked at in one call after another. -/
def fatesOn (r : Reader) (d : Draft) : List Bytes → List Fate
  | [] => []
  | piece :: rest => r.fates d piece ++ (r.feed d piece).reader.fatesOn (r.feed d piece).draft rest

/-! ### What is held -/

/-- What a reader and its draft hold: the bytes of the token and the characters of the texts. -/
def stored (r : Reader) (d : Draft) : Nat := r.token.length + d.letters

/-- A folded line may yet bring a space with it. -/
def owed (r : Reader) : Nat := if r.folding then 1 else 0

section Moves

variable (r : Reader) (d : Draft) (b : UInt8) (phase : Phase)

@[simp]
theorem stored_goto : (r.goto phase).stored d = r.stored d := rfl

@[simp]
theorem owed_goto : (r.goto phase).owed = r.owed := rfl

@[simp]
theorem stored_counted : r.counted.stored d = r.stored d := rfl

@[simp]
theorem owed_counted : r.counted.owed = r.owed := rfl

@[simp]
theorem stored_push : (r.push b).stored d = r.stored d + 1 := by
  rw [stored, stored]
  show r.token.length + 1 + _ = _
  omega

@[simp]
theorem owed_push : (r.push b).owed = r.owed := rfl

@[simp]
theorem stored_take : (r.take phase).stored d = d.letters := Nat.zero_add _

@[simp]
theorem owed_take : (r.take phase).owed = r.owed := rfl

end Moves

theorem length_tokenText_le (r : Reader) : r.tokenText.length ≤ r.token.length := by
  rw [tokenText, ← List.length_reverse]
  exact Utf8.length_decode_le _

theorem length_folded_le (value line : String) :
    (folded value line).length ≤ value.length + line.length + 1 := by
  rw [folded]
  split
  · omega
  · split
    · omega
    · rw [String.length_append, String.length_append]
      show value.length + 1 + line.length ≤ _
      omega

variable {r s : Reader} {d e : Draft} {b : UInt8} {input : Bytes} {M : Nat} {fates : List Fate}

theorem length_lineText_le (r : Reader) : r.lineText.length ≤ r.token.length := by
  refine (Utf8.length_decode_le _).trans ?_
  rw [List.length_reverse]
  exact List.length_dropWhile_le _ _

/-- The end of a value adds no more than the space that is owed. -/
theorem length_endedValue_le (r : Reader) (value : String) :
    (r.endedValue value).length ≤ value.length + r.token.length + r.owed := by
  have hline := r.length_lineText_le
  rw [endedValue, owed]
  split
  · have hfolded := length_folded_le value r.lineText
    omega
  · omega

/-- **A byte that is taken adds no more than one to what is held.** -/
theorem stored_accept (h : r.accept d b = .ok (s, e)) :
    s.stored e + s.owed ≤ r.stored d + r.owed + 1 := by
  have htext := r.length_tokenText_le
  cases accepts h with
  | skipped => omega
  | methodBegun | nameBegun | valueBegun =>
    rw [stored_goto, owed_goto, stored_push, owed_push]
    omega
  | gathered =>
    rw [stored_push, owed_push]
    omega
  | methodEnded =>
    rw [stored_take, owed_take, stored]
    show d.letters + _ ≤ _
    omega
  | targetEnded =>
    have hletters := d.letters_target_le r.tokenText
    rw [stored_take, owed_take, stored]
    omega
  | versionEnded =>
    have hletters := d.letters_version_le r.tokenText
    rw [stored_take, owed_take, stored]
    omega
  | nameEnded =>
    rw [stored_take, owed_take, stored, Draft.letters_cons]
    show r.tokenText.length + 0 + d.letters + _ ≤ _
    omega
  | @valueEnded field older _ _ hfields =>
    have hvalue := r.length_endedValue_le field.value
    have hbefore : d.letters = field.letters + { d with fields := older : Draft }.letters := by
      rw [← Draft.letters_cons, ← hfields]
    rw [stored, stored, hbefore, Draft.letters_cons, Header.letters, Header.letters]
    show 0 + (field.name.length + (r.endedValue field.value).length + _) + 0 ≤ _
    omega
  | continued =>
    show r.stored d + 1 ≤ _
    omega
  | lineBegun | closed | headEnded =>
    rw [stored_goto, owed_goto]
    omega

/-! ### The counts -/

/-- What holds of a reader with the limit `M`, its draft, and the fates of all bytes that it has
looked at. -/
structure Tally (M : Nat) (r : Reader) (d : Draft) (fates : List Fate) : Prop where
  limit : r.limit = M
  seen : r.seen = fates.length
  acted : fates.countP Fate.acts = min r.seen M
  stored : r.stored d + r.owed ≤ fates.count .taken
  done : r.phase = .done → r.seen ≤ M

theorem tally_ofLimit (M : Nat) : Tally M (ofLimit M) {} [] :=
  ⟨rfl, rfl, (Nat.zero_min M).symm, Nat.zero_le _, fun _ => Nat.zero_le M⟩

/-- A byte within the limit is taken. -/
theorem Tally.taken (h : Tally M r d fates) (hlimit : ¬r.limit < r.seen + 1)
    (haccept : r.counted.accept d b = .ok (s, e)) : Tally M s e (fates ++ [.taken]) := by
  obtain ⟨hseen, hlimit'⟩ := counts_of_taken haccept
  have hheld : s.stored e + s.owed ≤ r.counted.stored d + r.counted.owed + 1 :=
    stored_accept haccept
  rw [stored_counted, owed_counted] at hheld
  have hM := h.limit
  have hacted := h.acted
  have hstored := h.stored
  refine ⟨?_, ?_, ?_, ?_, fun _ => by omega⟩
  · rw [hlimit']
    exact hM
  · rw [hseen, h.seen, List.length_append, List.length_singleton]
  · rw [List.countP_append, hacted, hseen]
    show min r.seen M + 1 = _
    omega
  · rw [List.count_append]
    show _ ≤ _ + 1
    omega

/-- A byte within the limit is refused. -/
theorem Tally.refused (h : Tally M r d fates) (hlimit : ¬r.limit < r.seen + 1) :
    Tally M r.counted d (fates ++ [.refused]) := by
  have hM := h.limit
  have hacted := h.acted
  refine ⟨hM, ?_, ?_, ?_, fun _ => by show r.seen + 1 ≤ M; omega⟩
  · rw [List.length_append, ← h.seen]
    rfl
  · rw [List.countP_append, hacted]
    show min r.seen M + 1 = min (r.seen + 1) M
    omega
  · rw [List.count_append]
    exact h.stored

/-- A byte is beyond the limit. -/
theorem Tally.overLimit (h : Tally M r d fates) (hlimit : r.limit < r.seen + 1)
    (hr : r.phase ≠ .done) : Tally M r.counted d (fates ++ [.overLimit]) := by
  have hM := h.limit
  have hacted := h.acted
  refine ⟨hM, ?_, ?_, ?_, fun hdone => absurd hdone hr⟩
  · rw [List.length_append, ← h.seen]
    rfl
  · rw [List.countP_append, hacted]
    show min r.seen M + 0 = min (r.seen + 1) M
    omega
  · rw [List.count_append]
    exact h.stored

theorem tally_feedFrom (h : Tally M r d fates) (hr : r.phase ≠ .done) (consumed : Nat)
    (input : Bytes) :
    Tally M (r.feedFrom d consumed input).reader (r.feedFrom d consumed input).draft
      (fates ++ r.fatesFrom d input) := by
  induction input generalizing r d consumed fates with
  | nil =>
    rw [fatesFrom, List.append_nil]
    exact h
  | cons b rest ih =>
    rw [feedFrom_cons, fatesFrom]
    split
    · next hlimit => exact h.overLimit hlimit hr
    · next hlimit =>
      cases haccept : r.counted.accept d b with
      | error fault => exact h.refused hlimit
      | ok p =>
        obtain ⟨s, e⟩ := p
        have hnext := h.taken hlimit haccept
        dsimp only
        rw [List.append_cons]
        split
        · rw [List.append_nil]
          exact hnext
        · next hdone => exact ih hnext hdone (consumed + 1)

theorem tally_feed (h : Tally M r d fates) (input : Bytes) :
    Tally M (r.feed d input).reader (r.feed d input).draft (fates ++ r.fates d input) := by
  rw [feed, Reader.fates]
  split
  · rw [List.append_nil]
    exact h
  · next hr => exact tally_feedFrom h hr 0 input

/-- **The counts hold after any number of calls**, whatever each of them has come to. -/
theorem tally_feedOn (h : Tally M r d fates) (pieces : List Bytes) :
    Tally M (r.feedOn d pieces).1 (r.feedOn d pieces).2 (fates ++ r.fatesOn d pieces) := by
  induction pieces generalizing r d fates with
  | nil =>
    rw [fatesOn, List.append_nil]
    exact h
  | cons piece rest ih =>
    rw [fatesOn, ← List.append_assoc]
    exact ih (tally_feed h piece)

/-! ### Beyond the limit -/

/-- A call that asks for more has looked at all that it was given. -/
theorem counts_of_incomplete (h : (r.feed d input).verdict = .incomplete) :
    (r.feed d input).reader.seen = r.seen + input.length ∧
      (r.feed d input).reader.limit = r.limit := by
  by_cases hr : r.phase = .done
  · rw [feed, if_pos hr] at h
    cases h
  · rw [feed_of_not_done hr] at h ⊢
    generalize (0 : Nat) = consumed at h ⊢
    induction input generalizing r d consumed with
    | nil => exact ⟨rfl, rfl⟩
    | cons b rest ih =>
      rw [feedFrom_cons] at h ⊢
      split at h
      · cases h
      · next hlimit =>
        rw [if_neg hlimit]
        split at h
        · cases h
        · next s e haccept =>
          split at h
          · cases h
          · next hs =>
            obtain ⟨hseen, hlimit⟩ := ih hs _ h
            obtain ⟨hseen', hlimit'⟩ := counts_of_taken haccept
            rw [if_neg hs, hseen, hlimit, hseen', hlimit', List.length_cons]
            exact ⟨by omega, rfl⟩

/-- A call that comes to a byte beyond the limit fails there. -/
theorem feed_of_limit_reached {i : Nat} (hi : i < input.length)
    (hbefore : (r.feed d (input.take i)).verdict = .incomplete) (hlimit : r.limit ≤ r.seen + i) :
    r.feed d input =
      ⟨.failed (.tooLarge r.limit), (r.feed d (input.take i)).reader.counted,
        (r.feed d (input.take i)).draft⟩ := by
  have hdone := phase_of_incomplete hbefore
  obtain ⟨hseen, hsame⟩ := counts_of_incomplete hbefore
  rw [List.length_take_of_le hi.le] at hseen
  have hcut := feed_append r d (input.take i) (input.drop i)
  rw [List.take_append_drop] at hcut
  rw [hcut, Progress.resume, hbefore, List.drop_eq_getElem_cons hi]
  dsimp only
  rw [feed_of_not_done hdone, feedFrom_cons, hseen, hsame, if_pos (Nat.lt_succ_of_le hlimit)]
  rfl

/-- A reader that has looked beyond its limit looks at no more than the next byte of any piece. -/
theorem feed_overLimit (hr : r.phase ≠ .done) (hlimit : r.limit < r.seen) (d : Draft)
    (input : Bytes) : r.feed d input =
      if input = [] then ⟨.incomplete, r, d⟩ else ⟨.failed (.tooLarge r.limit), r.counted, d⟩ := by
  rw [feed_of_not_done hr]
  cases input with
  | nil => rfl
  | cons b rest =>
    rw [feedFrom_cons, if_pos (Nat.lt_succ_of_lt hlimit), if_neg (List.cons_ne_nil b rest)]

/-- **Beyond the limit a reader stays as it is**, but for the count. -/
theorem feedOn_overLimit (hr : r.phase ≠ .done) (hlimit : r.limit < r.seen) (d : Draft)
    (pieces : List Bytes) :
    ∃ n, r.feedOn d pieces = (r.counting (r.seen + n) r.limit, d) := by
  induction pieces generalizing r with
  | nil => exact ⟨0, rfl⟩
  | cons piece rest ih =>
    rw [feedOn, feed_overLimit hr hlimit]
    split
    · exact ih hr hlimit
    · obtain ⟨n, hn⟩ := ih (r := r.counted) hr (Nat.lt_succ_of_lt hlimit)
      refine ⟨1 + n, hn.trans ?_⟩
      rw [← Nat.add_assoc]
      rfl

/-- **A head of exactly the limit is read**, in whatever pieces it comes, and whatever follows it. -/
theorem feedAll_of_form (h : HeadForm) {cut : List Bytes} {body : Bytes}
    (hcut : cut.flatten = h.bytes ++ body) :
    ((ofLimit h.bytes.length).feedAll {} cut).verdict = .complete h.bytes.length ∧
      ((ofLimit h.bytes.length).feedAll {} cut).draft = h.draft := by
  have hstart : (ofLimit h.bytes.length).phase ≠ .done := Phase.noConfusion
  rw [feedAll_eq_feed _ _ hstart, hcut]
  exact (feed_complete_iff_form _ _ _ _).2
    ⟨Nat.le_refl _, h, List.prefix_append h.bytes body, rfl, rfl⟩

/-- **The limit bounds what a reader holds.**  Take any pieces of input from the start of a head,
under the limit `M`, and go on whatever they come to.  Every byte that is looked at is counted, no
more than `M` of them are acted on, and the bytes of the token and the characters of all texts of the
draft are no more than those.  A call that comes to byte `M + 1` while it asks for more fails there,
for the head is too large, and what it leaves is what was there before that byte, but for the count.
Once that byte has been looked at, further pieces change nothing but the count, and each that is not
empty fails in the same way.  Set back, the reader is a new one; and it reads a head of exactly `M`
bytes, in whatever pieces. -/
theorem bounded_feedOn (M : Nat) (pieces : List Bytes) :
    let r := ((ofLimit M).feedOn {} pieces).1
    let d := ((ofLimit M).feedOn {} pieces).2
    let fates := (ofLimit M).fatesOn {} pieces
    (r.seen = fates.length ∧ fates.countP Fate.acts ≤ M ∧
      r.stored d ≤ fates.countP Fate.acts) ∧
    (∀ input i, i < input.length → (r.feed d (input.take i)).verdict = .incomplete →
      M ≤ r.seen + i →
      r.feed d input = ⟨.failed (.tooLarge M), (r.feed d (input.take i)).reader.counted,
        (r.feed d (input.take i)).draft⟩) ∧
    (M < r.seen → ∀ more input,
      let s := (r.feedOn d more).1
      (r.feedOn d more).2 = d ∧ s = r.counting s.seen M ∧
        s.feed d input =
          if input = [] then ⟨.incomplete, s, d⟩ else ⟨.failed (.tooLarge M), s.counted, d⟩) ∧
    r.reset = ofLimit M ∧
    ∀ (h : HeadForm) (cut : List Bytes) (body : Bytes), h.bytes.length = M →
      cut.flatten = h.bytes ++ body →
      (r.reset.feedAll {} cut).verdict = .complete M ∧
        (r.reset.feedAll {} cut).draft = h.draft := by
  intro r d fates
  have htally : Tally M r d fates := tally_feedOn (tally_ofLimit M) pieces
  have hacted := htally.acted
  have hreset : r.reset = ofLimit M := congrArg ofLimit htally.limit
  have htaken : fates.count .taken ≤ fates.countP Fate.acts :=
    List.countP_mono_left fun f _ hf => by
      rw [beq_iff_eq.1 hf]
      rfl
  have hstored := htally.stored
  refine ⟨⟨htally.seen, by omega, by omega⟩, fun input i hi hbefore hlimit => ?_,
    fun hover more input => ?_, hreset, fun h cut body hlength hcut => ?_⟩
  · rw [feed_of_limit_reached hi hbefore (by rw [htally.limit]; exact hlimit), htally.limit]
  · have hdone : r.phase ≠ .done := fun hdone => absurd (htally.done hdone) (Nat.not_le_of_lt hover)
    have hlimit := htally.limit
    obtain ⟨n, hn⟩ := feedOn_overLimit hdone (by rw [hlimit]; exact hover) d more
    rw [hn, hlimit]
    exact ⟨rfl, rfl,
      feed_overLimit (r := r.counting (r.seen + n) M) hdone (Nat.lt_add_right n hover) d input⟩
  · rw [hreset, ← hlength]
    exact feedAll_of_form h hcut

/-- `GET / HTTP/1.1` and an empty line, the shortest head there is but for its line ends. -/
def shortHead : HeadForm where
  lead := []
  lead_lineEnds := by simp
  method := .get
  target := [0x2F]
  target_ne_nil := List.cons_ne_nil _ _
  target_plain := List.forall_mem_singleton.2 rfl
  major := 0x31
  major_digit := by decide
  minor := 0x31
  minor_digit := by decide
  lineEnd := .crlf
  fields := []
  last := .crlf

/-- Eighteen bytes are one too many for a limit of seventeen, then and after, and are read under a
limit of eighteen. -/
theorem bounded_feedOn_short :
    ((ofLimit 17).feed {} shortHead.bytes).verdict = .failed (.tooLarge 17) ∧
      (((ofLimit 17).feedOn {} [shortHead.bytes]).1.feed
        ((ofLimit 17).feedOn {} [shortHead.bytes]).2 [0x0A]).verdict = .failed (.tooLarge 17) ∧
      (((ofLimit 18).feedOn {} []).1.reset.feedAll {}
        [shortHead.bytes.take 9, shortHead.bytes.drop 9]).verdict = .complete 18 := by
  refine ⟨?_, ?_, ?_⟩
  · obtain ⟨-, hover, -⟩ := bounded_feedOn 17 []
    have hfails := hover shortHead.bytes 17 (by decide) (by cbv) (by decide)
    exact congrArg Progress.verdict hfails
  · obtain ⟨-, -, hafter, -⟩ := bounded_feedOn 17 [shortHead.bytes]
    obtain ⟨-, -, hfails⟩ := hafter (by cbv) [] [0x0A]
    exact congrArg Progress.verdict hfails
  · obtain ⟨-, -, -, -, hread⟩ := bounded_feedOn 18 []
    exact (hread shortHead [shortHead.bytes.take 9, shortHead.bytes.drop 9] [] (by decide)
      (by decide)).1

end Reader

end Head

end HttpExchange
