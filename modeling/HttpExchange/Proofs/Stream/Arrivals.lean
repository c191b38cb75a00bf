import HttpExchange.Response.Delivery

/-!
# What a stream delivers

A script lays down single reads; a patient reader sees only the bytes they bring and how these end.
This file says what that is and that no read can tell more:

* `arrivals` — the bytes of a script up to its first end, failure or hang, and which of them it is;
* `Brings` / `read_brings` — one patient read brings a non-empty first part of what the stream still
  delivers, or its ending once nothing is left;
* `Alike` — two streams that differ in what is still to be read only; reading keeps it;
* `delivered_of_read` — what an impatient read brings is the front of it too;
* `coming` — all bytes of a script, whatever stands between them; `coming_of_read` says that a read
  takes those off it that it brings;
* `Yields` — what several reads bring, one after another; `exists_yields` says that these end close
  to any place, `flatten_of_piece` where they end in one piece;
* `Delivery.run_reading` — what is written does not depend on what is still to be read.
-/

namespace HttpExchange

/-- How many bytes a write takes. -/
def Writing.taken : Writing → Nat
  | accepted count => count
  | _ => 0

/-- The bytes of a step. -/
def ReadStep.bytes : ReadStep → Bytes
  | data bytes => bytes
  | _ => []

/-- The bytes that a read brings. -/
def Reading.bytes : Reading → Bytes
  | data bytes => bytes
  | _ => []

namespace Stream

/-- How the bytes that a stream delivers come to an end. -/
inductive Ending
  | ended
  | failed (error : IoError)
  /-- Nothing more, and no end either. -/
  | never
  deriving DecidableEq, Repr

/-- The bytes that a script brings to a patient reader, and how they end, while the stream has been
flushed so often. -/
def arrivals (flushes : Nat) : List ReadStep → Bytes × Ending
  | [] => ([], .ended)
  | .data bytes :: rest =>
    if bytes.isEmpty then ([], .ended)
    else (bytes ++ (arrivals flushes rest).1, (arrivals flushes rest).2)
  | .fail error :: _ => ([], .failed error)
  | .hang :: _ => ([], .never)
  | .afterFlush count :: rest => if count ≤ flushes then arrivals flushes rest else ([], .never)
  | .sleep _ :: rest => arrivals flushes rest

/-- The bytes a stream delivers before its final event. -/
def delivered (s : Stream) : Bytes := (arrivals s.flushes s.reads).1

/-- The final event of a stream. -/
def ending (s : Stream) : Ending := (arrivals s.flushes s.reads).2

/-- Non-empty pieces come one after another, and then whatever the script goes on with. -/
theorem arrivals_pieces_append (flushes : Nat) {pieces : List Bytes}
    (h : ∀ piece ∈ pieces, piece ≠ []) (rest : List ReadStep) :
    arrivals flushes (pieces.map .data ++ rest) =
      (pieces.flatten ++ (arrivals flushes rest).1, (arrivals flushes rest).2) := by
  induction pieces with
  | nil => rfl
  | cons piece pieces ih =>
    obtain ⟨hpiece, hpieces⟩ := List.forall_mem_cons.1 h
    rw [List.map_cons, List.cons_append, arrivals, if_neg (by simpa using hpiece), ih hpieces,
      List.flatten_cons, List.append_assoc]

/-- A script of non-empty pieces brings these, one after another. -/
theorem arrivals_pieces (flushes : Nat) {pieces : List Bytes} (h : ∀ piece ∈ pieces, piece ≠ []) :
    arrivals flushes (pieces.map .data) = (pieces.flatten, .ended) := by
  have happend := arrivals_pieces_append flushes h []
  rw [List.append_nil, arrivals, List.append_nil] at happend
  exact happend

/-- The script that sends pieces one after another and then ends, or fails. -/
def script (pieces : List Bytes) (fault : Option IoError) : List ReadStep :=
  pieces.map .data ++ (fault.map .fail).toList

theorem arrivals_script (flushes : Nat) {pieces : List Bytes} (h : ∀ piece ∈ pieces, piece ≠ [])
    (fault : Option IoError) :
    arrivals flushes (script pieces fault) = (pieces.flatten, fault.elim .ended .failed) := by
  rw [script, arrivals_pieces_append flushes h]
  cases fault <;> exact congrArg (·, _) (List.append_nil _)

/-! ### Streams that differ in their reading side only -/

/-- The stream with another script left and another timer. -/
def reading (s : Stream) (reads : List ReadStep) (wakeAt : Option Nat) : Stream :=
  { s with reads, wakeAt }

@[simp]
theorem reads_reading (s : Stream) (reads : List ReadStep) (wakeAt : Option Nat) :
    (s.reading reads wakeAt).reads = reads := rfl

/-- Nothing but what is still to be read tells the streams apart. -/
def Alike (s t : Stream) : Prop := ∃ reads wakeAt, t = s.reading reads wakeAt

theorem Alike.refl (s : Stream) : s.Alike s := ⟨s.reads, s.wakeAt, rfl⟩

theorem Alike.trans {s t u : Stream} (hst : s.Alike t) (htu : t.Alike u) : s.Alike u := by
  obtain ⟨reads, wakeAt, rfl⟩ := hst
  obtain ⟨reads', wakeAt', rfl⟩ := htu
  exact ⟨reads', wakeAt', rfl⟩

theorem Alike.written {s t : Stream} (h : s.Alike t) : t.written = s.written := by
  obtain ⟨reads, wakeAt, rfl⟩ := h
  rfl

theorem Alike.flushes {s t : Stream} (h : s.Alike t) : t.flushes = s.flushes := by
  obtain ⟨reads, wakeAt, rfl⟩ := h
  rfl

/-! ### One patient read -/

/-- What a patient read may bring and leave. -/
inductive Brings (s : Stream) : Reading → Stream → Prop
  | data {bytes : Bytes} {t : Stream} (nonempty : bytes ≠ []) (alike : s.Alike t)
      (delivers : s.delivered = bytes ++ t.delivered) (ends : s.ending = t.ending) :
      Brings s (.data bytes) t
  | ended {t : Stream} (alike : s.Alike t) (delivers : s.delivered = [])
      (ends : s.ending = .ended) : Brings s .ended t
  | failed {error : IoError} {t : Stream} (alike : s.Alike t) (delivers : s.delivered = [])
      (ends : s.ending = .failed error) : Brings s (.failed error) t
  | waiting {wake : Option Nat} {t : Stream} (alike : s.Alike t) (delivers : s.delivered = [])
      (ends : s.ending = .never) : Brings s (.waiting wake) t

/-- A step that a patient read passes over changes nothing in what the stream brings. -/
theorem Brings.of_skip {s t u : Stream} {reading : Reading} (alike : s.Alike t)
    (delivers : s.delivered = t.delivered) (ends : s.ending = t.ending)
    (h : t.Brings reading u) : s.Brings reading u := by
  cases h with
  | data nonempty alike' delivers' ends' =>
    exact .data nonempty (alike.trans alike') (delivers.trans delivers') (ends.trans ends')
  | ended alike' delivers' ends' =>
    exact .ended (alike.trans alike') (delivers.trans delivers') (ends.trans ends')
  | failed alike' delivers' ends' =>
    exact .failed (alike.trans alike') (delivers.trans delivers') (ends.trans ends')
  | waiting alike' delivers' ends' =>
    exact .waiting (alike.trans alike') (delivers.trans delivers') (ends.trans ends')

/-- **A read tells no more than the stream delivers.**  Whatever room the reader has, a patient read
brings a non-empty first part of what is still to come, or the final event when nothing is. -/
theorem read_brings (s : Stream) (now : Nat) {room : Nat} (room_pos : 0 < room) :
    s.Brings (s.read true now room).1 (s.read true now room).2.2 := by
  generalize hp : true = patient
  fun_induction read patient now room s with
  | case1 now s h =>
    exact .ended (Alike.refl s) (by simp [delivered, arrivals, h]) (by simp [ending, arrivals, h])
  | case2 now s bytes rest h hempty =>
    exact .ended ⟨rest, s.wakeAt, rfl⟩ (by simp_all [delivered, arrivals])
      (by simp_all [ending, arrivals])
  | case3 now s bytes rest h count hne hall =>
    refine .data ?_ ⟨rest, s.wakeAt, rfl⟩ ?_ ?_
    · simpa using hne
    · simp_all [delivered, arrivals]
    · simp_all [ending, arrivals]
  | case4 now s bytes rest h count hne b left hleft =>
    have hcount : 0 < count := Nat.lt_min.2 ⟨room_pos, s.perRead_pos⟩
    have hbytes : bytes.take count ++ b :: left = bytes := by
      rw [← hleft, List.take_append_drop]
    refine .data ?_ ⟨.data (b :: left) :: rest, s.wakeAt, rfl⟩ ?_ ?_
    · intro hnil
      rw [List.take_eq_nil_iff] at hnil
      rcases hnil with hzero | hnil
      · omega
      · simp [hnil] at hne
    · simp only [delivered, arrivals, h, hne, List.isEmpty_cons,
        Bool.false_eq_true, if_false]
      rw [← List.append_assoc, hbytes]
    · simp [ending, arrivals, h, hne]
  | case5 now s error rest h =>
    exact .failed ⟨rest, s.wakeAt, rfl⟩ (by simp [delivered, arrivals, h])
      (by simp [ending, arrivals, h])
  | case6 now s rest h =>
    exact .waiting (Alike.refl s) (by simp [delivered, arrivals, h])
      (by simp [ending, arrivals, h])
  | case7 now s count rest h hle ih =>
    exact .of_skip ⟨rest, s.wakeAt, rfl⟩ (by simp [delivered, arrivals, reading, h, hle])
      (by simp [ending, arrivals, reading, h, hle]) ih
  | case8 now s count rest h hlt =>
    exact .waiting (Alike.refl s) (by simp [delivered, arrivals, h, hlt])
      (by simp [ending, arrivals, h, hlt])
  | case9 now s duration rest h wake hle ih =>
    exact .of_skip ⟨rest, none, rfl⟩ (by simp [delivered, arrivals, reading, h])
      (by simp [ending, arrivals, reading, h]) ih
  | case10 now s duration rest h wake hlt hpatient ih =>
    exact .of_skip ⟨rest, none, rfl⟩ (by simp [delivered, arrivals, reading, h])
      (by simp [ending, arrivals, reading, h]) ih
  | case11 now s duration rest h wake hlt hpatient => simp [← hp] at hpatient

/-! ### One read, patient or not -/

/-- A read changes only what is still to be read. -/
theorem read_alike (patient : Bool) (now room : Nat) (s : Stream) :
    s.Alike (s.read patient now room).2.2 := by
  fun_induction read patient now room s with
  | case7 _ _ _ _ _ _ ih => exact .trans ⟨_, _, rfl⟩ ih
  | case9 _ _ _ _ _ _ _ ih => exact .trans ⟨_, _, rfl⟩ ih
  | case10 _ _ _ _ _ _ _ _ ih => exact .trans ⟨_, _, rfl⟩ ih
  | _ => exact ⟨_, _, rfl⟩

/-- What a read brings is the front of what is delivered. -/
theorem delivered_of_read {patient : Bool} {now room clock : Nat} {s t : Stream} {bytes : Bytes}
    (h : s.read patient now room = (.data bytes, clock, t)) :
    s.delivered = bytes ++ t.delivered := by
  fun_induction read patient now room s with
  | case3 now s bytes rest heq count hne hall =>
    cases h
    simp [delivered, arrivals, heq, hne]
  | case4 now s piece rest heq count hne b left hleft =>
    cases h
    have hpiece : piece.take count ++ b :: left = piece := by rw [← hleft, List.take_append_drop]
    simp only [delivered, arrivals, heq, hne, List.isEmpty_cons, Bool.false_eq_true, if_false]
    rw [← List.append_assoc, hpiece]
  | case7 now s count rest heq hle ih =>
    rw [← ih h]
    simp [delivered, arrivals, heq, hle]
  | case9 now s duration rest heq wake hle ih =>
    rw [← ih h]
    simp [delivered, arrivals, heq]
  | case10 now s duration rest heq wake hlt hpatient ih =>
    rw [← ih h]
    simp [delivered, arrivals, heq]
  | _ => cases h

/-- All bytes of the script, whatever stands between them. -/
def coming (s : Stream) : Bytes := s.reads.flatMap ReadStep.bytes

/-- **A read takes what it brings**, and no other bytes. -/
theorem coming_of_read (patient : Bool) (now room : Nat) (s : Stream) :
    s.coming = (s.read patient now room).1.bytes ++ (s.read patient now room).2.2.coming := by
  fun_induction read patient now room s with
  | case1 => rfl
  | case2 now s bytes rest hreads hempty =>
    rw [List.isEmpty_iff] at hempty
    simp [coming, hreads, ReadStep.bytes, Reading.bytes, hempty]
  | case3 now s bytes rest hreads => simp [coming, hreads, ReadStep.bytes, Reading.bytes]
  | case4 now s bytes rest hreads count hne b left hleft =>
    have hpiece : bytes.take count ++ b :: left = bytes := by rw [← hleft, List.take_append_drop]
    simp only [coming, hreads, List.flatMap_cons, ReadStep.bytes, Reading.bytes]
    rw [← List.append_assoc, hpiece]
  | case5 now s error rest hreads => simp [coming, hreads, ReadStep.bytes, Reading.bytes]
  | case7 now s count rest hreads hle ih =>
    rw [← ih]
    simp [coming, hreads, ReadStep.bytes]
  | case9 now s duration rest hreads wake hle ih =>
    rw [← ih]
    simp [coming, hreads, ReadStep.bytes]
  | case10 now s duration rest hreads wake hlt hpatient ih =>
    rw [← ih]
    simp [coming, hreads, ReadStep.bytes]
  | _ => rfl

/-- What a read brings is no more than there is room for. -/
theorem length_le_of_read {patient : Bool} {now room clock : Nat} {s t : Stream}
    {bytes : Bytes} (h : s.read patient now room = (.data bytes, clock, t)) :
    bytes.length ≤ room := by
  fun_induction read patient now room s with
  | case3 now s piece rest heq count hne hall =>
    cases h
    exact Nat.le_trans (List.drop_eq_nil_iff.1 hall) (Nat.min_le_left _ _)
  | case4 now s piece rest heq count hne b left hleft =>
    cases h
    exact Nat.le_trans (List.length_take_le _ _) (Nat.min_le_left _ _)
  | case7 _ _ _ _ _ _ ih => exact ih h
  | case9 _ _ _ _ _ _ _ ih => exact ih h
  | case10 _ _ _ _ _ _ _ _ ih => exact ih h
  | _ => cases h

/-- One read of a piece takes all of it, or as much as one read brings. -/
theorem read_data {now clock : Nat} {s t : Stream} {got piece : Bytes}
    {rest : List ReadStep} (hreads : s.reads = .data piece :: rest)
    (h : s.read true now s.perRead = (.data got, clock, t)) :
    (got = piece ∧ t.reads = rest) ∨
      ∃ left, piece = got ++ left ∧ got.length = s.perRead ∧ t.perRead = s.perRead ∧
        t.reads = .data left :: rest := by
  rw [read.eq_def] at h
  split at h
  case h_2 heq =>
    cases hreads.symm.trans heq
    split at h
    · cases h
    · simp only [Nat.min_self] at h
      split at h
      · cases h
        exact .inl ⟨rfl, rfl⟩
      · next hleft =>
        cases h
        have hlength := congrArg List.length hleft
        rw [List.length_drop, List.length_cons] at hlength
        refine .inr ⟨_, ?_, ?_, rfl, rfl⟩
        · rw [← hleft, List.take_append_drop]
        · rw [List.length_take]
          omega
  all_goals
    next heq =>
    cases hreads.symm.trans heq

/-! ### Several reads -/

/-- What several patient reads bring, one after another. -/
inductive Yields : Nat → Stream → List Bytes → Prop
  | none {now : Nat} {s : Stream} : Yields now s []
  | more {now clock : Nat} {s t : Stream} {bytes : Bytes} {pieces : List Bytes}
      (read : s.read true now s.perRead = (.data bytes, clock, t)) (rest : Yields clock t pieces) :
      Yields now s (bytes :: pieces)

/-- What reads bring is the front of what is delivered. -/
theorem Yields.delivered {now : Nat} {s : Stream} {pieces : List Bytes} (h : Yields now s pieces) :
    ∃ rest, s.delivered = pieces.flatten ++ rest := by
  induction h with
  | none => exact ⟨_, rfl⟩
  | more hread _ ih =>
    obtain ⟨rest, hrest⟩ := ih
    exact ⟨rest, by rw [delivered_of_read hread, hrest, List.flatten_cons, List.append_assoc]⟩

/-- There is a first read, and the others follow it. -/
theorem Yields.cases {now clock : Nat} {s t : Stream} {reading : Reading} {pieces : List Bytes}
    (h : Yields now s pieces) (hread : s.read true now s.perRead = (reading, clock, t)) :
    pieces = [] ∨ ∃ bytes rest, reading = .data bytes ∧ pieces = bytes :: rest ∧
      Yields clock t rest := by
  cases h with
  | none => exact .inl rfl
  | more hfirst hrest =>
    cases hread.symm.trans hfirst
    exact .inr ⟨_, _, rfl, rfl, hrest⟩

/-- As many bytes as are delivered may be read, and no more than one read beyond them. -/
theorem exists_yields {s : Stream} {count : Nat} (hpos : 0 < count)
    (hle : count ≤ s.delivered.length) (now : Nat) :
    ∃ pieces, s.Yields now pieces ∧ count ≤ pieces.flatten.length ∧
      pieces.flatten.length < count + s.perRead := by
  induction hweight : s.weight using Nat.strongRecOn generalizing s count now with
  | ind weight ih =>
    have hbrings := s.read_brings now s.perRead_pos
    generalize hread : s.read true now s.perRead = result at hbrings
    obtain ⟨reading, clock, t⟩ := result
    cases hbrings with
    | data nonempty alike delivers ends =>
      next bytes =>
      have hroom := length_le_of_read hread
      by_cases henough : count ≤ bytes.length
      · refine ⟨[bytes], .more hread .none, ?_, ?_⟩
        · simpa using henough
        · simp only [List.flatten_singleton]
          omega
      · have hlt : t.weight < weight := hweight ▸ weight_lt_of_read_data s.perRead_pos hread
        have hper : t.perRead = s.perRead := by
          obtain ⟨reads, wakeAt, rfl⟩ := alike
          rfl
        rw [delivered_of_read hread, List.length_append] at hle
        have hleft : count - bytes.length ≤ t.delivered.length := by omega
        obtain ⟨pieces, hpieces, hlow, hhigh⟩ := ih t.weight hlt (by omega) hleft clock rfl
        refine ⟨bytes :: pieces, .more hread hpieces, ?_, ?_⟩
        · rw [List.flatten_cons, List.length_append]
          omega
        · rw [List.flatten_cons, List.length_append]
          omega
    | failed alike delivers ends | waiting alike delivers ends | ended alike delivers ends =>
      rw [delivers, List.length_nil] at hle
      omega

/-- A stream that has one piece left delivers it. -/
theorem delivered_of_piece {s : Stream} {piece : Bytes} (hreads : s.reads = [.data piece])
    (hne : piece ≠ []) : s.delivered = piece := by
  have harrivals := arrivals_pieces s.flushes (List.forall_mem_singleton.2 hne)
  rw [List.flatten_singleton, List.map_singleton] at harrivals
  rw [delivered, hreads, harrivals]

/-- Reads cut a piece at every so many bytes, and at its end. -/
theorem Yields.flatten_of_piece {now : Nat} {s : Stream} {piece : Bytes}
    {pieces : List Bytes} (h : s.Yields now pieces) (hreads : s.reads = [.data piece]) :
    pieces.flatten = piece ∨ s.perRead ∣ pieces.flatten.length := by
  induction h generalizing piece with
  | none => exact .inr (Nat.dvd_zero _)
  | @more now clock s t got pieces hread hrest ih =>
    obtain ⟨rfl, hover⟩ | ⟨left, rfl, hlength, hper, hleft⟩ := read_data hreads hread
    · cases hrest with
      | none => exact .inl (List.append_nil _)
      | more hagain _ =>
        rw [read.eq_def, hover] at hagain
        cases hagain
    · rw [List.flatten_cons, List.length_append, hlength]
      obtain hall | hmore := ih hleft
      · exact .inl (congrArg (got ++ ·) hall)
      · exact .inr (Nat.dvd_add (Nat.dvd_refl _) (hper ▸ hmore))

/-- So they bring all of a piece that has no cut beyond some place, if they go beyond it. -/
theorem Yields.flatten_eq_of_piece {now limit : Nat} {s : Stream} {piece : Bytes}
    {pieces : List Bytes} (h : s.Yields now pieces) (hreads : s.reads = [.data piece])
    (hne : piece ≠ [])
    (hlate : ∀ length, s.perRead ∣ length → limit < length → piece.length ≤ length)
    (hlimit : limit < pieces.flatten.length) : pieces.flatten = piece := by
  obtain hall | hcut := h.flatten_of_piece hreads
  · exact hall
  · obtain ⟨rest, hrest⟩ := h.delivered
    rw [delivered_of_piece hreads hne] at hrest
    have hlong := hlate _ hcut hlimit
    have hlengths := congrArg List.length hrest
    rw [List.length_append] at hlengths
    have hnil : rest = [] := List.length_eq_zero_iff.1 (by omega)
    rw [hrest, hnil, List.append_nil]

/-! ### Writing -/

theorem written_write (bytes : Bytes) (s : Stream) :
    (s.write bytes).2.written = s.written ++ bytes.take (s.write bytes).1.taken := by
  rw [write]
  split <;> simp [Writing.taken]

@[simp]
theorem write_reading (bytes : Bytes) (s : Stream) (reads : List ReadStep) (wakeAt : Option Nat) :
    (s.reading reads wakeAt).write bytes =
      ((s.write bytes).1, (s.write bytes).2.reading reads wakeAt) := by
  obtain ⟨_, _, _, writes, _⟩ := s
  cases writes with
  | nil => rfl
  | cons step rest => cases step <;> rfl

@[simp]
theorem flushes_write (bytes : Bytes) (s : Stream) : (s.write bytes).2.flushes = s.flushes := by
  rw [write]
  split <;> rfl

@[simp]
theorem flush_reading (s : Stream) (reads : List ReadStep) (wakeAt : Option Nat) :
    (s.reading reads wakeAt).flush = (s.flush.1, s.flush.2.reading reads wakeAt) := rfl

end Stream

namespace Delivery

/-- With nothing left to write the stream is flushed. -/
theorem run_nil (written : Nat) (s : Stream) :
    run ⟨[], written⟩ s = match s.flush with
      | (some error, s) => (.failed error, ⟨[], written⟩, s)
      | (none, s) => (.delivered, ⟨[], written⟩, s) := by
  rewrite [run]
  rfl

theorem run_nil_cons (rest : List Bytes) (written : Nat) (s : Stream) :
    run ⟨[] :: rest, written⟩ s = run ⟨rest, written⟩ s := by
  rw [run]

theorem run_cons_cons (b : UInt8) (bytes : Bytes) (rest : List Bytes) (written : Nat)
    (s : Stream) :
    run ⟨(b :: bytes) :: rest, written⟩ s = match s.write (b :: bytes) with
      | (.waiting, s) => (.waiting, ⟨(b :: bytes) :: rest, written⟩, s)
      | (.failed error, s) => (.failed error, ⟨(b :: bytes) :: rest, written⟩, s)
      | (.accepted 0, s) => (.failed closedWhileWriting, ⟨(b :: bytes) :: rest, written⟩, s)
      | (.accepted (n + 1), s) => run ⟨bytes.drop n :: rest, written + (n + 1)⟩ s := by
  rewrite [run]
  rfl

/-- Writing a response takes no notice of what is still to be read. -/
theorem run_reading (d : Delivery) (s : Stream) (reads : List ReadStep) (wakeAt : Option Nat) :
    d.run (s.reading reads wakeAt) =
      ((d.run s).1, (d.run s).2.1, (d.run s).2.2.reading reads wakeAt) := by
  fun_induction run d s with
  | case1 d s h error t hflush =>
    obtain ⟨_, written⟩ := d
    cases h
    simp [run_nil, hflush]
  | case2 d s h t hflush =>
    obtain ⟨_, written⟩ := d
    cases h
    simp [run_nil, hflush]
  | case3 d s rest h ih =>
    obtain ⟨_, written⟩ := d
    cases h
    rw [run_nil_cons]
    exact ih
  | case4 d s b bytes rest h t hwrite | case5 d s b bytes rest h error t hwrite
  | case6 d s b bytes rest h t hwrite =>
    obtain ⟨_, written⟩ := d
    cases h
    simp [run_cons_cons, hwrite]
  | case7 d s b bytes rest h n t hwrite ih =>
    obtain ⟨_, written⟩ := d
    cases h
    simp only [run_cons_cons, Stream.write_reading, hwrite]
    exact ih

end Delivery

end HttpExchange
