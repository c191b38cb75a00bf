import HttpExchange.Reply.Reader

/-!
# A reply may be cut anywhere

More bytes at hand do not change what a reader of replies has come to: it goes on from where it
stood, or has them left over.

* `Bytes.find?_append_of_some`, `Bytes.find?_append_of_none` — a search may be taken up again a few
  bytes before the end of what has been searched;
* `step_received` — one move does the same with more bytes at hand, unless it finds a head too large;
* `advance_received_of_ne` — so does advancing, and a reader that asks for more goes on from where
  it stands;
* `HeadsFit` / `advance_received` — and where no head that ends is longer than the limit, every
  verdict stays as it is.
-/

namespace HttpExchange

namespace Bytes

/-! ### Searching -/

/-- Where the pattern would fit and is not, it is not with more bytes behind either. -/
theorem not_isPrefixOf_append {pattern xs : Bytes} (h : ¬pattern.isPrefixOf xs = true)
    (hlength : pattern.length ≤ xs.length) (ys : Bytes) :
    ¬pattern.isPrefixOf (xs ++ ys) = true := by
  rw [List.isPrefixOf_iff_prefix] at h ⊢
  intro hlong
  exact h (List.prefix_of_prefix_length_le hlong (List.prefix_append xs ys) hlength)

theorem find?_append_of_some {pattern : Bytes} {place found : Nat} {xs : Bytes}
    (h : find? pattern place xs = some found) (ys : Bytes) :
    find? pattern place (xs ++ ys) = some found := by
  induction xs generalizing place with
  | nil =>
    rw [find?] at h
    split at h
    · next hempty =>
      rw [List.isEmpty_iff.1 hempty]
      cases ys with
      | nil => exact h
      | cons y ys => exact h
    · cases h
  | cons x xs ih =>
    rw [List.cons_append, find?]
    rw [find?] at h
    split at h
    · next hprefix =>
      have hlong : pattern.isPrefixOf (x :: (xs ++ ys)) = true := by
        rw [List.isPrefixOf_iff_prefix] at hprefix ⊢
        exact hprefix.trans (List.prefix_append (x :: xs) ys)
      rw [if_pos hlong]
      exact h
    · next hprefix =>
      have hlength : pattern.length ≤ (x :: xs).length := by
        have hfound := find?_add_length_le h
        rw [List.length_cons]
        omega
      have hlong : ¬pattern.isPrefixOf (x :: (xs ++ ys)) = true :=
        not_isPrefixOf_append hprefix hlength ys
      rw [if_neg hlong]
      exact ih h

/-- What has been searched in vain need not be searched again, but for an end that is shorter than
the pattern. -/
theorem find?_append_of_none {pattern : Bytes} {place : Nat} {xs : Bytes}
    (h : find? pattern place xs = none) {skip : Nat} (hskip : skip + pattern.length ≤ xs.length + 1)
    (ys : Bytes) :
    find? pattern place (xs ++ ys) = find? pattern (place + skip) ((xs ++ ys).drop skip) := by
  induction xs generalizing place skip with
  | nil =>
    rw [find?] at h
    split at h
    · cases h
    · next hempty =>
      have hpos : pattern.length ≠ 0 := by
        intro hzero
        exact hempty (by simpa using hzero)
      obtain rfl : skip = 0 := by
        rw [List.length_nil] at hskip
        omega
      rfl
  | cons x xs ih =>
    cases skip with
    | zero => rfl
    | succ skip =>
      rw [find?] at h
      split at h
      · cases h
      · next hprefix =>
        have hlong : ¬pattern.isPrefixOf (x :: (xs ++ ys)) = true :=
          not_isPrefixOf_append hprefix (by omega) ys
        rw [List.length_cons] at hskip
        have hrest := ih h (show skip + pattern.length ≤ xs.length + 1 by omega)
        rw [List.cons_append, find?, if_neg hlong, hrest, List.drop_succ_cons, Nat.add_assoc,
          Nat.add_comm 1 skip]

end Bytes

namespace Reply

/-! ### More bytes at hand -/

namespace Reader

@[simp]
theorem received_nil (r : Reader) : r.received [] = r := by
  rw [received, List.append_nil]

theorem received_received (r : Reader) (x y : Bytes) :
    (r.received x).received y = r.received (x ++ y) := by
  rw [received, received, received, List.append_assoc]

@[simp]
theorem received_goto (r : Reader) (stage : Stage) (buffer x : Bytes) :
    (r.received x).goto stage (buffer ++ x) = (r.goto stage buffer).received x := rfl

theorem advance_of_again {r s : Reader} (h : r.step = .again s) : r.advance = s.advance := by
  rw [advance, h]

theorem advance_of_stop {r : Reader} {verdict : Verdict} (h : r.step = .stop verdict) :
    r.advance = verdict := by
  rw [advance, h]

end Reader

/-- What a move comes to with more bytes at hand. -/
def Move.received (m : Move) (x : Bytes) : Move :=
  match m with
  | .again r => .again (r.received x)
  | .stop (.wants r) => (r.received x).step
  | .stop (.complete head body delimited buffer) =>
    .stop (.complete head body delimited (buffer ++ x))
  | .stop (.failed error buffer) => .stop (.failed error (buffer ++ x))

/-- What a verdict comes to with more bytes at hand. -/
def Verdict.received (v : Verdict) (x : Bytes) : Verdict :=
  match v with
  | .wants r => (r.received x).advance
  | .complete head body delimited buffer => .complete head body delimited (buffer ++ x)
  | .failed error buffer => .failed error (buffer ++ x)

namespace Reader

/-- A search for the end of a head begins no later than three bytes before the end of the bytes at
hand. -/
def Placed (r : Reader) : Prop :=
  ∀ searched, r.stage = .head searched → searched ≤ r.buffer.length - 3

theorem placed_start (method : Method) (maxBody : Nat) (buffer : Bytes) :
    (start method maxBody buffer).Placed := by
  intro searched h
  cases h
  exact Nat.zero_le _

theorem Placed.received {r : Reader} (h : r.Placed) (x : Bytes) : (r.received x).Placed := by
  intro searched hstage
  have hle := h searched hstage
  show searched ≤ (r.buffer ++ x).length - 3
  rw [List.length_append]
  omega

theorem cutLine_append {buffer line rest : Bytes} (h : cutLine buffer = some (line, rest))
    (x : Bytes) : cutLine (buffer ++ x) = some (line, rest ++ x) := by
  rw [cutLine, Option.map_eq_some_iff] at h
  obtain ⟨place, hfind, hcut⟩ := h
  have hle := (Bytes.find?_add_length_le hfind).2
  rw [Nat.zero_add, show lineEnd.length = 2 from rfl] at hle
  rw [Prod.mk.injEq] at hcut
  rw [cutLine, Bytes.find?_append_of_some hfind, Option.map_some,
    List.take_append_of_le_length (by omega), List.drop_append_of_le_length hle, hcut.1, hcut.2]

theorem afterHead_received (r : Reader) (head : Head) (buffer x : Bytes) :
    (r.received x).afterHead head (buffer ++ x) = (r.afterHead head buffer).received x := by
  have hmethod : (r.received x).method = r.method := rfl
  have hmax : (r.received x).maxBody = r.maxBody := rfl
  simp only [afterHead, hmethod, hmax, received_goto]
  split
  · rfl
  · split
    · rfl
    · split
      · rfl
      · split
        · rfl
        · split
          · rfl
          · split <;> rfl

/-- More bytes than a head may have are at hand, and its end is not among them. -/
def TooLong (r : Reader) : Prop :=
  ∃ searched, r.stage = .head searched ∧
    Bytes.find? headEnd searched (r.buffer.drop searched) = none ∧ maxHead < r.buffer.length

theorem TooLong.step {r : Reader} (h : r.TooLong) : r.step = fail .headTooLarge r.buffer := by
  obtain ⟨searched, hs, hfind, hlength⟩ := h
  simp only [Reader.step, hs, hfind, if_pos hlength]

/-- **A move does the same with more bytes at hand**, unless it finds a head too large. -/
theorem step_received {r : Reader} (hr : r.Placed) (x : Bytes) :
    (r.received x).step = r.step.received x ∨ r.TooLong := by
  have hbuffer : (r.received x).buffer = r.buffer ++ x := rfl
  have hstage : (r.received x).stage = r.stage := rfl
  have hmax : (r.received x).maxBody = r.maxBody := rfl
  cases hs : r.stage with
  | head searched =>
    have hsearched := hr searched hs
    have hdrop : (r.buffer ++ x).drop searched = r.buffer.drop searched ++ x :=
      List.drop_append_of_le_length (by omega)
    simp only [step, hstage, hs, hbuffer, hdrop]
    cases hfind : Bytes.find? headEnd searched (r.buffer.drop searched) with
    | some place =>
      left
      have hle := (Bytes.find?_add_length_le hfind).2
      rw [List.length_drop, show headEnd.length = 4 from rfl] at hle
      have hplace : place + 4 ≤ r.buffer.length := by omega
      simp only [Bytes.find?_append_of_some hfind, List.take_append_of_le_length hplace,
        List.drop_append_of_le_length hplace]
      cases Head.ofBytes (r.buffer.take (place + 4)) with
      | error fault => rfl
      | ok head => exact afterHead_received r head _ x
    | none =>
      by_cases hlength : maxHead < r.buffer.length
      · right
        exact ⟨searched, hs, hfind, hlength⟩
      · left
        have hagain : Bytes.find? headEnd searched (r.buffer.drop searched ++ x) =
            Bytes.find? headEnd (r.buffer.length - 3)
              ((r.buffer ++ x).drop (r.buffer.length - 3)) := by
          by_cases hshort : r.buffer.length < 3
          · rw [← hdrop, show r.buffer.length - 3 = searched by omega]
          · have hskip : r.buffer.length - 3 - searched + headEnd.length ≤
                (r.buffer.drop searched).length + 1 := by
              rw [List.length_drop, show headEnd.length = 4 from rfl]
              omega
            rw [Bytes.find?_append_of_none hfind hskip, ← hdrop, List.drop_drop,
              show searched + (r.buffer.length - 3 - searched) = r.buffer.length - 3 by omega]
        rw [if_neg hlength, hagain]
        rfl
  | counted head length =>
    left
    simp only [step, hstage, hs, hbuffer]
    by_cases hlength : r.buffer.length < length
    · rw [if_pos hlength]
      show _ = (r.received x).step
      simp only [step, hstage, hs, hbuffer]
    · have hlong : ¬(r.buffer ++ x).length < length := by
        rw [List.length_append]
        omega
      rw [if_neg hlength, if_neg hlong, Move.received, List.take_append_of_le_length (by omega),
        List.drop_append_of_le_length (by omega)]
  | untilEnd head =>
    left
    simp only [step, hstage, hs, hbuffer]
    by_cases hlength : r.maxBody < r.buffer.length
    · have hlong : (r.received x).maxBody < (r.buffer ++ x).length := by
        show r.maxBody < _
        rw [List.length_append]
        omega
      rw [if_pos hlength, if_pos hlong]
      rfl
    · rw [if_neg hlength]
      show _ = (r.received x).step
      simp only [step, hstage, hs, hbuffer]
  | chunkSize head body =>
    left
    simp only [step, hstage, hs, hbuffer]
    cases hcut : cutLine r.buffer with
    | none =>
      show _ = (r.received x).step
      simp only [step, hstage, hs, hbuffer]
    | some cut =>
      obtain ⟨line, rest⟩ := cut
      simp only [cutLine_append hcut, hmax, received_goto]
      split
      · rfl
      · rfl
      · split <;> rfl
  | chunkData head body size =>
    left
    simp only [step, hstage, hs, hbuffer]
    by_cases hlength : r.buffer.length < size
    · rw [if_pos hlength]
      show _ = (r.received x).step
      simp only [step, hstage, hs, hbuffer]
    · have hlong : ¬(r.buffer ++ x).length < size := by
        rw [List.length_append]
        omega
      rw [if_neg hlength, if_neg hlong, List.take_append_of_le_length (by omega),
        List.drop_append_of_le_length (by omega)]
      rfl
  | chunkEnd head body =>
    left
    simp only [step, hstage, hs, hbuffer]
    cases hcut : cutLine r.buffer with
    | none =>
      show _ = (r.received x).step
      simp only [step, hstage, hs, hbuffer]
    | some cut =>
      obtain ⟨line, rest⟩ := cut
      simp only [cutLine_append hcut, received_goto]
      split <;> rfl
  | trailers head body =>
    left
    simp only [step, hstage, hs, hbuffer]
    cases hcut : cutLine r.buffer with
    | none =>
      show _ = (r.received x).step
      simp only [step, hstage, hs, hbuffer]
    | some cut =>
      obtain ⟨line, rest⟩ := cut
      simp only [cutLine_append hcut, received_goto]
      split <;> rfl

/-- A move that goes on begins a search at the front, if it begins one. -/
theorem searched_of_afterHead {r s : Reader} {head : Head} {buffer : Bytes} {searched : Nat}
    (h : r.afterHead head buffer = .again s) (hs : s.stage = .head searched) : searched = 0 := by
  simp only [afterHead] at h
  repeat' split at h
  all_goals first | (cases h; cases hs; rfl) | (cases h; cases hs) | cases h

theorem searched_of_again {r s : Reader} {searched : Nat} (h : r.step = .again s)
    (hs : s.stage = .head searched) : searched = 0 := by
  simp only [step] at h
  repeat' split at h
  all_goals first | exact searched_of_afterHead h hs | (cases h; cases hs) | cases h

theorem placed_of_again {r s : Reader} (h : r.step = .again s) : s.Placed := by
  intro searched hs
  rw [searched_of_again h hs]
  exact Nat.zero_le _

theorem advance_eq_of_step_eq {r s : Reader} (h : r.step = s.step) : r.advance = s.advance := by
  rw [advance, h, ← advance]

theorem step_received_of_again {r s : Reader} (hr : r.Placed) (h : r.step = .again s) (x : Bytes) :
    (r.received x).step = .again (s.received x) := by
  rcases step_received hr x with hreceived | hlong
  · rw [hreceived, h]
    rfl
  · rw [hlong.step] at h
    cases h

/-- A stop does the same with more bytes at hand. -/
theorem advance_of_stop_received {r : Reader} {verdict : Verdict} {x : Bytes}
    (h : (r.received x).step = (Move.stop verdict).received x) :
    (r.received x).advance = verdict.received x := by
  cases verdict with
  | wants u => exact advance_eq_of_step_eq h
  | complete head body delimited buffer => exact advance_of_stop h
  | failed error buffer => exact advance_of_stop h

/-- **More bytes change nothing but a fault of a head too large.** -/
theorem advance_received_of_ne {r : Reader} (hr : r.Placed)
    (h : ∀ buffer, r.advance ≠ .failed (.badReply .headTooLarge) buffer) (x : Bytes) :
    (r.received x).advance = r.advance.received x := by
  fun_induction advance r with
  | case1 r s hstep ih =>
    rw [advance_of_again (step_received_of_again hr hstep x)]
    exact ih (placed_of_again hstep) h
  | case2 r verdict hstep =>
    rcases step_received hr x with hreceived | hlong
    · rw [hstep] at hreceived
      exact advance_of_stop_received hreceived
    · rw [hlong.step] at hstep
      cases hstep
      exact absurd rfl (h r.buffer)

/-- **A reader that asks for more goes on from where it stands.** -/
theorem advance_received_of_wants {r u : Reader} (hr : r.Placed) (h : r.advance = .wants u)
    (x : Bytes) : (r.received x).advance = (u.received x).advance := by
  have hne : ∀ buffer, r.advance ≠ .failed (.badReply .headTooLarge) buffer := by
    intro buffer hfailed
    cases h.symm.trans hfailed
  rw [advance_received_of_ne hr hne x, h]
  rfl

/-! ### Heads that fit -/

/-- The readers that advancing passes through. -/
inductive Passes : Reader → Reader → Prop
  | refl (r : Reader) : Passes r r
  | again {r s t : Reader} : r.step = .again s → Passes s t → Passes r t

/-- Every head that ends among the bytes at hand ends within the limit. -/
def HeadsFit (r : Reader) : Prop :=
  ∀ t searched place, r.Passes t → t.stage = .head searched →
    Bytes.find? headEnd searched (t.buffer.drop searched) = some place → place + 4 ≤ maxHead

theorem HeadsFit.of_again {r s : Reader} (h : r.HeadsFit) (hstep : r.step = .again s) :
    s.HeadsFit :=
  fun t searched place hpasses => h t searched place (.again hstep hpasses)

/-- Where heads fit, more bytes cannot make up for one that is too long. -/
theorem TooLong.received {r : Reader} (h : r.TooLong) (hr : r.Placed) {x : Bytes}
    (hfit : (r.received x).HeadsFit) : (r.received x).TooLong := by
  obtain ⟨searched, hs, hfind, hlength⟩ := h
  refine ⟨searched, hs, ?_, ?_⟩
  · cases hfound : Bytes.find? headEnd searched ((r.received x).buffer.drop searched) with
    | none => rfl
    | some place =>
      have hplace : place + 4 ≤ maxHead := hfit _ searched place (.refl _) hs hfound
      have hsearched := hr searched hs
      have hmax : 3 < maxHead := by decide
      have hskip : r.buffer.length - 3 - searched + headEnd.length ≤
          (r.buffer.drop searched).length + 1 := by
        rw [List.length_drop, show headEnd.length = 4 from rfl]
        omega
      rw [show (r.received x).buffer.drop searched = r.buffer.drop searched ++ x from
        List.drop_append_of_le_length (by omega), Bytes.find?_append_of_none hfind hskip] at hfound
      have := (Bytes.find?_add_length_le hfound).1
      omega
  · show maxHead < (r.buffer ++ x).length
    rw [List.length_append]
    omega

/-- **Advancing does the same with more bytes at hand.** -/
theorem advance_received {r : Reader} (hr : r.Placed) {x : Bytes} (hfit : (r.received x).HeadsFit) :
    (r.received x).advance = r.advance.received x := by
  fun_induction advance r with
  | case1 r s hstep ih =>
    have hreceived := step_received_of_again hr hstep x
    rw [advance_of_again hreceived]
    exact ih (placed_of_again hstep) (hfit.of_again hreceived)
  | case2 r verdict hstep =>
    rcases step_received hr x with hreceived | hlong
    · rw [hstep] at hreceived
      exact advance_of_stop_received hreceived
    · rw [hlong.step] at hstep
      cases hstep
      exact advance_of_stop (hlong.received hr hfit).step

end Reader

end Reply

end HttpExchange
