import HttpExchange.Proofs.Head.Form
import HttpExchange.Proofs.Head.Resume

/-!
# Where a head ends

The count has no part in what the reader does with a byte, but that it stops it.  Without the count,
a run of bytes either is a whole head or is none.

* `finish` — what the reader has when a head ends with the last byte;
* `feedFrom_complete_iff` — a head is complete after so many bytes when they are under the limit and
  finish;
* `finish_span` — a phase that gathers a class of bytes takes the longest run of them.
-/

namespace HttpExchange.Head

namespace Reader

/-! ### Without the count -/

/-- The reader with other counts. -/
def counting (r : Reader) (seen limit : Nat) : Reader := { r with seen, limit }

/-- What a head comes to that ends with the last of the bytes, whatever its size. -/
def finish (r : Reader) (d : Draft) : Bytes → Option Draft
  | [] => if r.phase = .done then some d else none
  | b :: rest =>
    if r.phase = .done then none
    else match r.accept d b with
      | .error _ => none
      | .ok (s, e) => s.finish e rest

/-- The counts have no part in what a byte does. -/
theorem accept_counting (r : Reader) (d : Draft) (b : UInt8) (seen limit : Nat) :
    (r.counting seen limit).accept d b =
      (r.accept d b).map fun p => (p.1.counting seen limit, p.2) := by
  obtain ⟨phase, token, folding, seen', limit'⟩ := r
  cases phase with
  | method =>
    simp only [accept, apply_ite (Except.map _), counting, tokenText]
    cases Method.ofName? (Utf8.decode token.reverse) <;> rfl
  | valueStart | value =>
    simp only [accept, finishValue, apply_ite (Except.map _), counting]
    cases d.fields <;> rfl
  | done => rfl
  | _ =>
    simp only [accept, apply_ite (Except.map _), counting]
    rfl

theorem counted_eq_counting (r : Reader) : r.counted = r.counting (r.seen + 1) r.limit := rfl

theorem counts_of_accept {r s : Reader} {d e : Draft} {b : UInt8}
    (h : r.accept d b = .ok (s, e)) : s = s.counting r.seen r.limit := by
  have hcounts := accept_counting r d b r.seen r.limit
  rw [show r.counting r.seen r.limit = r from rfl, h] at hcounts
  exact congrArg Prod.fst (Except.ok.inj hcounts)

theorem finish_counting (r : Reader) (d : Draft) (seen limit : Nat) (bytes : Bytes) :
    (r.counting seen limit).finish d bytes = r.finish d bytes := by
  induction bytes generalizing r d with
  | nil => rfl
  | cons b rest ih =>
    rw [finish, finish, accept_counting]
    show (if r.phase = .done then none else _) = _
    cases r.accept d b with
    | error fault => rfl
    | ok p => simp only [Except.map, ih]

theorem finish_of_done {r : Reader} (hr : r.phase = .done) {d e : Draft} {bytes : Bytes} :
    r.finish d bytes = some e ↔ bytes = [] ∧ d = e := by
  cases bytes with
  | nil => simp [finish, hr]
  | cons b rest => simp [finish, hr]

theorem lt_of_feedFrom_complete {r : Reader} {d : Draft} {k consumed : Nat} {bytes : Bytes}
    (h : (r.feedFrom d k bytes).verdict = .complete consumed) : k < consumed := by
  induction bytes generalizing r d k with
  | nil => cases h
  | cons b rest ih =>
    rw [feedFrom_cons] at h
    split at h
    · cases h
    · split at h
      · cases h
      · split at h
        · cases h
          omega
        · have := ih h
          omega

/-- **When a head is complete.**  After `n` more bytes, if there are so many, they are under the
limit, and the head finishes with the last of them. -/
theorem feedFrom_complete_iff {r : Reader} (hr : r.phase ≠ .done) (d e : Draft) (k n : Nat)
    (input : Bytes) :
    ((r.feedFrom d k input).verdict = .complete (k + n) ∧ (r.feedFrom d k input).draft = e) ↔
      n ≤ input.length ∧ r.seen + n ≤ r.limit ∧ r.finish d (input.take n) = some e := by
  induction input generalizing r d k n with
  | nil =>
    refine iff_of_false (fun h => Verdict.noConfusion h.1) ?_
    rintro ⟨-, -, hfinish⟩
    rw [List.take_nil, finish, if_neg hr] at hfinish
    cases hfinish
  | cons b rest ih =>
    cases n with
    | zero =>
      refine iff_of_false (fun h => ?_) ?_
      · have := lt_of_feedFrom_complete h.1
        omega
      · intro h
        obtain ⟨-, -, hfinish⟩ := h
        rw [List.take_zero, finish, if_neg hr] at hfinish
        cases hfinish
    | succ m =>
      rw [feedFrom_cons, List.take_succ_cons, finish, if_neg hr, List.length_cons,
        counted_eq_counting, accept_counting]
      by_cases hlimit : r.limit < r.seen + 1
      · rw [if_pos hlimit]
        exact iff_of_false (fun h => Verdict.noConfusion h.1) (by omega)
      rw [if_neg hlimit]
      cases haccept : r.accept d b with
      | error fault => exact iff_of_false (fun h => Verdict.noConfusion h.1) (by simp)
      | ok p =>
        obtain ⟨s, f⟩ := p
        simp only [Except.map]
        have hcounts := counts_of_accept haccept
        by_cases hs : s.phase = .done
        · rw [if_pos (show (s.counting (r.seen + 1) r.limit).phase = .done from hs),
            finish_of_done hs]
          constructor
          · intro h
            obtain ⟨hverdict, hdraft⟩ := h
            have hm : k + 1 = k + (m + 1) := Verdict.complete.inj hverdict
            obtain rfl : m = 0 := by omega
            exact ⟨by omega, by omega, List.take_zero, hdraft⟩
          · intro h
            obtain ⟨hlength, -, htake, hdraft⟩ := h
            rcases List.take_eq_nil_iff.1 htake with rfl | rfl
            · exact ⟨rfl, hdraft⟩
            · obtain rfl : m = 0 := Nat.le_zero.1 (Nat.le_of_succ_le_succ hlength)
              exact ⟨rfl, hdraft⟩
        · rw [if_neg (show (s.counting (r.seen + 1) r.limit).phase ≠ .done from hs),
            show k + (m + 1) = k + 1 + m by omega,
            ih (show (s.counting (r.seen + 1) r.limit).phase ≠ .done from hs) f (k + 1) m,
            finish_counting]
          show m ≤ rest.length ∧ r.seen + 1 + m ≤ r.limit ∧ _ ↔ _
          rw [Nat.add_le_add_iff_right, Nat.add_assoc, Nat.add_comm 1 m]

/-! ### Runs of bytes -/

/-- The reader in a phase, its count at nothing. -/
def standing (phase : Phase) (token : List UInt8) (folding : Bool) : Reader :=
  { phase, token, folding, limit := 0 }

theorem finish_nil {r : Reader} (hr : r.phase ≠ .done) (d : Draft) : r.finish d [] = none := by
  rw [finish, if_neg hr]

theorem finish_cons_ok {r s : Reader} {d e : Draft} {b : UInt8} (hr : r.phase ≠ .done)
    (h : r.accept d b = .ok (s, e)) (rest : Bytes) :
    r.finish d (b :: rest) = s.finish e rest := by
  rw [finish, if_neg hr, h]

theorem finish_cons_error {r : Reader} {d : Draft} {b : UInt8} {f : Fault}
    (h : r.accept d b = .error f) (rest : Bytes) : r.finish d (b :: rest) = none := by
  rw [finish, h]
  split <;> rfl

section Span

variable {g : List UInt8 → Reader} {p : UInt8 → Bool} {d e : Draft}

/-- A run of the gathered class goes into the token. -/
theorem finish_push (hdone : ∀ t, (g t).phase ≠ .done)
    (hpush : ∀ t b, p b = true → (g t).accept d b = .ok (g (b :: t), d))
    (t : List UInt8) {run : Bytes} (hrun : ∀ b ∈ run, p b = true) (rest : Bytes) :
    (g t).finish d (run ++ rest) = (g (run.reverse ++ t)).finish d rest := by
  induction run generalizing t with
  | nil => rfl
  | cons b run ih =>
    have hb := hpush t b (hrun b List.mem_cons_self)
    rw [List.cons_append, finish_cons_ok (hdone t) hb,
      ih (b :: t) fun x hx => hrun x (List.mem_cons_of_mem b hx), List.reverse_cons,
      List.append_assoc, List.singleton_append]

/-- The first byte outside of the class ends the run. -/
theorem exists_run_of_finish (hdone : ∀ t, (g t).phase ≠ .done)
    (hpush : ∀ t b x, p b = true → (g t).accept d b = .ok x → x = (g (b :: t), d))
    {t : List UInt8} {input : Bytes} (h : (g t).finish d input = some e) :
    ∃ run b rest, input = run ++ b :: rest ∧ (∀ x ∈ run, p x = true) ∧ p b = false ∧
      (g (run.reverse ++ t)).finish d (b :: rest) = some e := by
  induction input generalizing t with
  | nil =>
    rw [finish_nil (hdone t)] at h
    cases h
  | cons b rest ih =>
    cases hb : p b with
    | false => exact ⟨[], b, rest, rfl, by simp, hb, h⟩
    | true =>
      cases haccept : (g t).accept d b with
      | error fault =>
        rw [finish_cons_error haccept] at h
        cases h
      | ok x =>
        obtain rfl := hpush t b x hb haccept
        rw [finish_cons_ok (hdone t) haccept] at h
        obtain ⟨run, c, rest', rfl, hrun, hc, hfinish⟩ := ih h
        refine ⟨b :: run, c, rest', rfl, ?_, hc, ?_⟩
        · intro x hx
          rcases List.mem_cons.1 hx with rfl | hx
          · exact hb
          · exact hrun x hx
        · rwa [List.reverse_cons, List.append_assoc]

/-- **A phase that gathers a class of bytes takes the longest run of them.** -/
theorem finish_span (hdone : ∀ t, (g t).phase ≠ .done)
    (hpush : ∀ t b, p b = true → (g t).accept d b = .ok (g (b :: t), d))
    (t : List UInt8) (input : Bytes) :
    (g t).finish d input = some e ↔
      ∃ run b rest, input = run ++ b :: rest ∧ (∀ x ∈ run, p x = true) ∧ p b = false ∧
        (g (run.reverse ++ t)).finish d (b :: rest) = some e := by
  constructor
  · refine exists_run_of_finish hdone fun t b x hb haccept => ?_
    rw [hpush t b hb] at haccept
    exact (Except.ok.inj haccept).symm
  · intro h
    obtain ⟨run, b, rest, rfl, hrun, -, hfinish⟩ := h
    rwa [finish_push hdone hpush t hrun]

end Span

end Reader

end HttpExchange.Head
