import HttpExchange.Request.Head

/-!
# A head may be cut anywhere

Feeding a reader two pieces is feeding it both at once, wherever the cut falls: in the middle of a
line end, of a folded line or of a character.

* `feed_append` — the second piece goes on where the first one stopped; once the verdict has fallen,
  nothing that follows changes it;
* `feedAll` / `feedAll_eq_feed` — any number of pieces, empty ones among them, come to what their
  concatenation comes to, the consumed bytes counted from its start;
* `feedAll_resumes` — so it is for a new reader, and what follows its verdict changes nothing.
-/

namespace HttpExchange.Head

/-- The verdict with so many bytes more in front of the input. -/
def Verdict.shift (count : Nat) : Verdict → Verdict
  | .complete consumed => .complete (count + consumed)
  | verdict => verdict

/-- The progress with so many bytes more in front of the input. -/
def Progress.shift (count : Nat) (p : Progress) : Progress :=
  { p with verdict := p.verdict.shift count }

@[simp]
theorem Progress.shift_zero (p : Progress) : p.shift 0 = p := by
  obtain ⟨verdict, r, d⟩ := p
  cases verdict <;> simp [shift, Verdict.shift]

theorem Progress.shift_shift (j k : Nat) (p : Progress) :
    (p.shift k).shift j = p.shift (j + k) := by
  obtain ⟨verdict, r, d⟩ := p
  cases verdict <;> simp [shift, Verdict.shift, Nat.add_assoc]

namespace Reader

/-! ### One byte -/

/-- The reader once it has counted one more byte. -/
def counted (r : Reader) : Reader := { r with seen := r.seen + 1 }

@[simp]
theorem feedFrom_nil (r : Reader) (d : Draft) (consumed : Nat) :
    r.feedFrom d consumed [] = ⟨.incomplete, r, d⟩ := rfl

theorem feedFrom_cons (r : Reader) (d : Draft) (consumed : Nat) (b : UInt8) (rest : Bytes) :
    r.feedFrom d consumed (b :: rest) =
      if r.limit < r.seen + 1 then ⟨.failed (.tooLarge r.limit), r.counted, d⟩
      else match r.counted.accept d b with
        | .error fault => ⟨.failed fault, r.counted, d⟩
        | .ok (s, e) =>
          if s.phase = .done then ⟨.complete (consumed + 1), s, e⟩
          else s.feedFrom e (consumed + 1) rest := rfl

/-! ### Two pieces -/

theorem feedFrom_shift (r : Reader) (d : Draft) (j k : Nat) (bytes : Bytes) :
    r.feedFrom d (j + k) bytes = (r.feedFrom d k bytes).shift j := by
  induction bytes generalizing r d k with
  | nil => rfl
  | cons b rest ih =>
    rw [feedFrom_cons, feedFrom_cons]
    split
    · rfl
    · split
      · rfl
      · next s e haccept =>
        split
        · rfl
        · rw [Nat.add_assoc]
          exact ih s e (k + 1)

end Reader

/-- What comes of the progress on a first piece of so many bytes when a second one follows. -/
def Progress.resume (p : Progress) (count : Nat) (more : Bytes) : Progress :=
  match p.verdict with
  | .incomplete => (p.reader.feed p.draft more).shift count
  | _ => p

theorem Progress.resume_shift (p : Progress) (j k : Nat) (more : Bytes) :
    (p.shift j).resume (j + k) more = (p.resume k more).shift j := by
  obtain ⟨verdict, r, d⟩ := p
  cases verdict with
  | incomplete => exact (shift_shift j k _).symm
  | complete consumed | failed fault => rfl

/-- Once the verdict has fallen, a second piece is not looked at. -/
theorem Progress.resume_of_fallen {p : Progress} (h : p.verdict ≠ .incomplete) (count : Nat)
    (more : Bytes) : p.resume count more = p := by
  obtain ⟨verdict, r, d⟩ := p
  cases verdict with
  | incomplete => exact absurd rfl h
  | complete consumed | failed fault => rfl

namespace Reader

theorem feed_of_not_done {r : Reader} (h : r.phase ≠ .done) (d : Draft) (bytes : Bytes) :
    r.feed d bytes = r.feedFrom d 0 bytes := by
  rw [feed, if_neg h]

theorem feedFrom_append (r : Reader) (d : Draft) (hr : r.phase ≠ .done) (a b : Bytes) :
    r.feedFrom d 0 (a ++ b) = (r.feedFrom d 0 a).resume a.length b := by
  induction a generalizing r d with
  | nil => simp [Progress.resume, feed_of_not_done hr]
  | cons x rest ih =>
    rw [List.cons_append, feedFrom_cons, feedFrom_cons]
    split
    · rfl
    · split
      · rfl
      · next s e haccept =>
        split
        · rfl
        · next hs =>
          have hshift := feedFrom_shift s e 1 0
          rw [hshift, hshift, ih s e hs, List.length_cons, Nat.add_comm rest.length 1,
            Progress.resume_shift]

/-- **A cut changes nothing.**  The second piece is taken by the reader the first one leaves; a head
that is complete or refused after the first piece stays so. -/
theorem feed_append (r : Reader) (d : Draft) (a b : Bytes) :
    r.feed d (a ++ b) = (r.feed d a).resume a.length b := by
  by_cases hr : r.phase = .done
  · simp [feed, hr, Progress.resume]
  · rw [feed_of_not_done hr, feed_of_not_done hr]
    exact feedFrom_append r d hr a b

theorem consumed_le_of_feedFrom {r : Reader} {d : Draft} {k consumed : Nat} {bytes : Bytes}
    (h : (r.feedFrom d k bytes).verdict = .complete consumed) : consumed ≤ k + bytes.length := by
  induction bytes generalizing r d k with
  | nil => cases h
  | cons b rest ih =>
    rw [feedFrom_cons] at h
    rw [List.length_cons]
    split at h
    · cases h
    · split at h
      · cases h
      · split at h
        · cases h
          omega
        · have := ih h
          omega

/-- A head ends within the input. -/
theorem consumed_le_length {r : Reader} {d : Draft} {bytes : Bytes} {consumed : Nat}
    (h : (r.feed d bytes).verdict = .complete consumed) : consumed ≤ bytes.length := by
  by_cases hr : r.phase = .done
  · rw [feed, if_pos hr] at h
    cases h
    exact Nat.zero_le _
  · rw [feed_of_not_done hr] at h
    have := consumed_le_of_feedFrom h
    omega

/-! ### Any number of pieces -/

/-- Takes pieces one after another until the head ends or a byte is refused. -/
def feedAll (r : Reader) (d : Draft) : List Bytes → Progress
  | [] => ⟨.incomplete, r, d⟩
  | piece :: rest =>
    let p := r.feed d piece
    match p.verdict with
    | .incomplete => (p.reader.feedAll p.draft rest).shift piece.length
    | _ => p

/-- A reader that asks for more is not done. -/
theorem phase_of_incomplete {r : Reader} {d : Draft} {bytes : Bytes}
    (h : (r.feed d bytes).verdict = .incomplete) : (r.feed d bytes).reader.phase ≠ .done := by
  by_cases hr : r.phase = .done
  · simp [feed, hr] at h
  · rw [feed_of_not_done hr] at h ⊢
    generalize (0 : Nat) = consumed at h ⊢
    induction bytes generalizing r d consumed with
    | nil => exact hr
    | cons b rest ih =>
      rw [feedFrom_cons] at h ⊢
      split at h
      · cases h
      · next hlimit =>
        rw [if_neg hlimit]
        split at h
        · cases h
        · next s e haccept =>
          split at h
          · cases h
          · next hs =>
            simp only [if_neg hs]
            exact ih hs _ h

/-- **Pieces come to what they make together.**  However the input is cut, empty pieces included,
verdict, reader and draft are those of one piece, and the consumed bytes count from its start. -/
theorem feedAll_eq_feed (r : Reader) (d : Draft) (hr : r.phase ≠ .done) (pieces : List Bytes) :
    r.feedAll d pieces = r.feed d pieces.flatten := by
  induction pieces generalizing r d with
  | nil => simp [feedAll, feed, hr]
  | cons piece rest ih =>
    rw [List.flatten_cons, feed_append, feedAll, Progress.resume]
    cases hv : (r.feed d piece).verdict with
    | incomplete => simp only [ih _ _ (phase_of_incomplete hv)]
    | complete consumed | failed fault => rfl

/-- **A head may be read in any pieces.**  A new reader that takes the pieces one after another, up
to the first that does not ask for more, comes to the verdict, the reader and the draft of one call
with all the bytes; and once the verdict is complete or failed, nothing that follows changes it,
neither as further pieces nor as more bytes of the one. -/
theorem feedAll_resumes (limit : Nat) (d : Draft) (pieces more : List Bytes) :
    let p := (ofLimit limit).feed d pieces.flatten
    (ofLimit limit).feedAll d pieces = p ∧
      (p.verdict ≠ .incomplete →
        (ofLimit limit).feedAll d (pieces ++ more) = p ∧
          (ofLimit limit).feed d (pieces.flatten ++ more.flatten) = p) := by
  intro p
  have hstart : (ofLimit limit).phase ≠ .done := fun h => by cases h
  have hcut (pieces : List Bytes) := feedAll_eq_feed (ofLimit limit) d hstart pieces
  refine ⟨hcut pieces, fun hverdict => ?_⟩
  have hmore : (ofLimit limit).feed d (pieces.flatten ++ more.flatten) = p := by
    rw [feed_append]
    exact Progress.resume_of_fallen hverdict _ _
  exact ⟨by rw [hcut, List.flatten_append, hmore], hmore⟩

end Reader

end HttpExchange.Head
