import HttpExchange.Proofs.Text.Blank
import HttpExchange.Proofs.Text.Utf8
import HttpExchange.Reply.Reader

/-!
# Heads of replies, written and read

* `Head.Plain` — the heads that can be written line by line;
* `Head.Legible` — those of them whose values have no blanks around them;
* `Head.bytes` — how they are written;
* `lines_flatMap` — a text is cut into the lines it was put together from, if none of them holds a
  line end;
* `find?_headEnd` — the first empty line is the one at the end;
* `ofBytes_bytes_trimmed` — a head that is written is read with its values trimmed;
* `ofBytes_bytes` — a legible one is read back as it is.
-/

namespace HttpExchange

/-- A field that can be written on a line of a reply, with any blanks around its value.  A line feed
alone does no harm. -/
structure Header.Plain (f : Header) : Prop where
  name_plain : ∀ c ∈ f.name.toList, c ≠ ':' ∧ c ≠ '\r'
  name_trimmed : Blank.trim f.name = f.name
  value_plain : ∀ c ∈ f.value.toList, c ≠ '\r'

/-- The field without the blanks around its value. -/
def Header.trimmed (f : Header) : Header := { f with value := Blank.trim f.value }

/-- A field that can be written on a line of a reply and is read back as it is. -/
structure Header.Legible (f : Header) : Prop where
  name_plain : ∀ c ∈ f.name.toList, c ≠ ':' ∧ c ≠ '\r'
  name_trimmed : Blank.trim f.name = f.name
  value_plain : ∀ c ∈ f.value.toList, c ≠ '\r'
  value_trimmed : Blank.trim f.value = f.value

theorem Header.Legible.plain {f : Header} (hf : f.Legible) : f.Plain :=
  ⟨hf.name_plain, hf.name_trimmed, hf.value_plain⟩

theorem Header.Legible.trimmed_eq {f : Header} (hf : f.Legible) : f.trimmed = f := by
  rw [Header.trimmed, hf.value_trimmed]

namespace Reply

/-- A head that can be written line by line, with any blanks around the values of its fields. -/
structure Head.Plain (h : Head) : Prop where
  version_prefix : "HTTP/1.".toList <+: h.version.toList
  version_plain : ∀ c ∈ h.version.toList, c ≠ ' ' ∧ c ≠ '\r'
  status_ge : 100 ≤ h.status
  status_lt : h.status < 1000
  reason_plain : ∀ c ∈ h.reason.toList, c ≠ '\r'
  headers : ∀ f ∈ h.headers, f.Plain

/-- The head without these blanks. -/
def Head.trimmed (h : Head) : Head := { h with headers := h.headers.map Header.trimmed }

/-- A head that can be written line by line and is read back as it is. -/
structure Head.Legible (h : Head) : Prop where
  version_prefix : "HTTP/1.".toList <+: h.version.toList
  version_plain : ∀ c ∈ h.version.toList, c ≠ ' ' ∧ c ≠ '\r'
  status_ge : 100 ≤ h.status
  status_lt : h.status < 1000
  reason_plain : ∀ c ∈ h.reason.toList, c ≠ '\r'
  headers : ∀ f ∈ h.headers, f.Legible

namespace Head

theorem Legible.plain {h : Head} (hl : h.Legible) : h.Plain :=
  ⟨hl.version_prefix, hl.version_plain, hl.status_ge, hl.status_lt, hl.reason_plain,
    fun f hf => (hl.headers f hf).plain⟩

theorem Legible.trimmed_eq {h : Head} (hl : h.Legible) : h.trimmed = h := by
  have hheaders : h.headers.map Header.trimmed = h.headers :=
    (List.map_congr_left fun f hf => (hl.headers f hf).trimmed_eq).trans (List.map_id _)
  rw [trimmed, hheaders]

/-- The status line, its end left out. -/
def statusLine (h : Head) : List Char :=
  h.version.toList ++ ' ' :: ((Numeral.decimal h.status).toList ++ ' ' :: h.reason.toList)

/-- A field line, its end left out. -/
def fieldLine (f : Header) : List Char := f.name.toList ++ ':' :: ' ' :: f.value.toList

/-- The lines of a head, the empty line left out. -/
def allLines (h : Head) : List (List Char) := h.statusLine :: h.headers.map fieldLine

/-- A line with its end. -/
def closed (line : List Char) : List Char := line ++ ['\r', '\n']

/-- The head on the wire. -/
def bytes (h : Head) : Bytes :=
  Utf8.encode (String.ofList (h.allLines.flatMap closed ++ ['\r', '\n']))

/-! ### Cutting at a mark -/

section Cut

variable {α : Type} [DecidableEq α] {mark : α} {xs : List α}

theorem takeWhile_ne (h : ∀ x ∈ xs, x ≠ mark) (ys : List α) :
    (xs ++ mark :: ys).takeWhile (· != mark) = xs := by
  rw [List.takeWhile_append_of_pos fun x hx => bne_iff_ne.2 (h x hx),
    List.takeWhile_cons_of_neg (by simp), List.append_nil]

theorem dropWhile_ne (h : ∀ x ∈ xs, x ≠ mark) (ys : List α) :
    (xs ++ mark :: ys).dropWhile (· != mark) = mark :: ys := by
  rw [List.dropWhile_append_of_pos fun x hx => bne_iff_ne.2 (h x hx),
    List.dropWhile_cons_of_neg (by simp)]

end Cut

/-! ### The status line -/

theorem isDigit_ne {c d : Char} (hc : c.isDigit = true) (hd : d.isDigit = false) : c ≠ d := by
  rintro rfl
  rw [hc] at hd
  cases hd

/-- A number that is written out is read back, whether or not a sign is allowed. -/
theorem bounded?_decimal {n bound : Nat} (h : n < bound) :
    Numeral.bounded? 10 bound (Numeral.decimal n).toList = some n := by
  refine Numeral.bounded?_of_digits? h ?_ (Numeral.digits?_decimal n)
  intro hhead
  have hdigit := Numeral.isDigit_of_mem_decimal (List.mem_of_head? hhead)
  exact absurd rfl (isDigit_ne hdigit (by decide))

theorem statusLine?_statusLine {h : Head} (hl : h.Plain) :
    statusLine? h.statusLine = some (h.version, h.status, h.reason) := by
  have hversion : ∀ c ∈ h.version.toList, c ≠ ' ' := by
    intro c hc
    exact (hl.version_plain c hc).1
  have hstatus : ∀ c ∈ (Numeral.decimal h.status).toList, c ≠ ' ' := by
    intro c hc
    exact isDigit_ne (Numeral.isDigit_of_mem_decimal hc) (by decide)
  have hprefix : "HTTP/1.".toList.isPrefixOf h.version.toList = true :=
    List.isPrefixOf_iff_prefix.2 hl.version_prefix
  have hbound : h.status < 65536 := Nat.lt_trans hl.status_lt (by decide)
  have hrange : 100 ≤ h.status ∧ h.status < 1000 := ⟨hl.status_ge, hl.status_lt⟩
  rw [statusLine?, statusLine, takeWhile_ne hversion, dropWhile_ne hversion]
  simp only [List.drop_succ_cons, List.drop_zero, takeWhile_ne hstatus, dropWhile_ne hstatus,
    bounded?_decimal hbound, if_pos hprefix, if_pos hrange, String.ofList_toList]

/-! ### Field lines -/

theorem stripEnds_of_trim {s : String} (h : Blank.trim s = s) :
    Blank.stripEnds Blank.isBlank s.toList = s.toList := by
  have hlist := congrArg String.toList h
  rwa [Blank.trim, String.toList_ofList] at hlist

theorem field?_fieldLine {f : Header} (hcolon : ∀ c ∈ f.name.toList, c ≠ ':')
    (htrim : Blank.trim f.name = f.name) : field? (fieldLine f) = some f.trimmed := by
  simp only [field?, fieldLine, dropWhile_ne hcolon, takeWhile_ne hcolon,
    Blank.stripEnds_cons (show Blank.isBlank ' ' = true by decide),
    stripEnds_of_trim htrim, String.ofList_toList]
  rfl

/-- The field lines in front of an empty line are read. -/
theorem fields_fieldLines {fs : Headers} (hf : ∀ f ∈ fs, f.Plain) (rest : List (List Char)) :
    fields (fs.map fieldLine ++ [] :: rest) = .ok (fs.map Header.trimmed) := by
  have hlines : (fs.map fieldLine ++ [] :: rest).takeWhile (!·.isEmpty) = fs.map fieldLine := by
    rw [List.takeWhile_append_of_pos, List.takeWhile_cons_of_neg (by simp), List.append_nil]
    intro line hline
    obtain ⟨f, -, rfl⟩ := List.mem_map.1 hline
    simp [fieldLine]
  rw [fields, hlines]
  clear hlines
  induction fs with
  | nil => rfl
  | cons f fs ih =>
    obtain ⟨hhead, htail⟩ := List.forall_mem_cons.1 hf
    rw [List.map_cons, List.mapM_cons,
      field?_fieldLine (fun c hc => (hhead.name_plain c hc).1) hhead.name_trimmed, ih htail]
    rfl

/-! ### Lines -/

/-- A line with no line end in it. -/
def Unbroken (line : List Char) : Prop := ¬ ['\r', '\n'] <:+: line

theorem unbroken_of_ne_cr {line : List Char} (h : ∀ c ∈ line, c ≠ '\r') : Unbroken line :=
  fun hend => h '\r' (hend.subset List.mem_cons_self) rfl

theorem unbroken_nil : Unbroken [] := unbroken_of_ne_cr fun _ hc => absurd hc List.not_mem_nil

/-- A character that belongs to no line end joins two lines without one. -/
theorem Unbroken.joined {xs ys : List Char} (hxs : Unbroken xs) (hys : Unbroken ys) {c : Char}
    (hc : c ≠ '\r' ∧ c ≠ '\n') : Unbroken (xs ++ c :: ys) := by
  rintro ⟨front, back, heq⟩
  rw [List.append_assoc, List.append_eq_append_iff] at heq
  obtain ⟨more, rfl, hmore⟩ | ⟨more, rfl, hmore⟩ := heq
  · cases more with
    | nil => exact hc.1 (List.cons.inj hmore).1.symm
    | cons d more =>
      cases more with
      | nil => exact hc.2 (List.cons.inj (List.cons.inj hmore).2).1.symm
      | cons e more =>
        obtain ⟨rfl, htail⟩ := List.cons.inj hmore
        obtain ⟨rfl, -⟩ := List.cons.inj htail
        exact hxs ⟨front, more, by rw [List.append_assoc]; rfl⟩
  · cases more with
    | nil => exact hc.1 (List.cons.inj hmore).1
    | cons d more =>
      obtain ⟨-, rfl⟩ := List.cons.inj hmore
      exact hys ⟨more, back, by rw [List.append_assoc]; rfl⟩

theorem linesOnto_closed {line : List Char} (hline : Unbroken line)
    (found : List (List Char)) (front rest : List Char) :
    linesOnto found front (closed line ++ rest) =
      linesOnto ((front.reverse ++ line) :: found) [] rest := by
  induction line generalizing front with
  | nil =>
    show linesOnto found front ('\r' :: '\n' :: rest) = _
    rw [linesOnto, List.append_nil]
  | cons c line ih =>
    have htail : Unbroken line := fun hend => hline (List.infix_cons hend)
    show linesOnto found front (c :: (closed line ++ rest)) = _
    rw [linesOnto, ih htail, List.reverse_cons, List.append_assoc, List.singleton_append]
    -- A CR with an LF behind it would end the line before its end.
    rintro rest' rfl heq
    cases line with
    | nil => cases heq
    | cons d line =>
      obtain ⟨rfl, -⟩ := List.cons.inj heq
      exact hline ⟨[], line, rfl⟩

/-- **A text is cut into the lines it was put together from.** -/
theorem lines_flatMap {ls : List (List Char)} (hls : ∀ l ∈ ls, Unbroken l) :
    lines (ls.flatMap closed) = ls ++ [[]] := by
  have honto : ∀ found, linesOnto found [] (ls.flatMap closed) = found.reverse ++ (ls ++ [[]]) := by
    induction ls with
    | nil =>
      intro found
      rw [List.flatMap_nil, linesOnto, List.reverse_cons]
      rfl
    | cons l ls ih =>
      intro found
      obtain ⟨hl, htail⟩ := List.forall_mem_cons.1 hls
      rw [List.flatMap_cons, linesOnto_closed hl, ih htail]
      simp
  exact honto []

/-- **So is a head**: into its lines and the empty line. -/
theorem lines_allLines {h : Head} (hlines : ∀ line ∈ h.allLines, Unbroken line) :
    lines (h.allLines.flatMap closed ++ ['\r', '\n']) = h.allLines ++ [[], []] := by
  have hall : ∀ line ∈ h.allLines ++ [[]], Unbroken line :=
    List.forall_mem_append.2 ⟨hlines, List.forall_mem_singleton.2 unbroken_nil⟩
  have hcut := lines_flatMap hall
  rw [List.flatMap_append, List.append_assoc] at hcut
  exact hcut

/-- A status line has no mark that is not in its parts, is no digit and is not the space. -/
theorem ne_of_mem_statusLine {h : Head} {mark : Char} (hspace : mark ≠ ' ')
    (hdigit : mark.isDigit = false) (hversion : ∀ c ∈ h.version.toList, c ≠ mark)
    (hreason : ∀ c ∈ h.reason.toList, c ≠ mark) : ∀ c ∈ h.statusLine, c ≠ mark := by
  intro c hc
  rw [statusLine, List.mem_append, List.mem_cons, List.mem_append, List.mem_cons] at hc
  rcases hc with hc | rfl | hc | rfl | hc
  · exact hversion c hc
  · exact hspace.symm
  · exact isDigit_ne (Numeral.isDigit_of_mem_decimal hc) hdigit
  · exact hspace.symm
  · exact hreason c hc

theorem ne_cr_of_mem_allLines {h : Head} (hl : h.Plain) :
    ∀ line ∈ h.allLines, ∀ c ∈ line, c ≠ '\r' := by
  rw [allLines, List.forall_mem_cons]
  refine ⟨ne_of_mem_statusLine (by decide) (by decide) (fun c hc => (hl.version_plain c hc).2)
    hl.reason_plain, fun line hline c hc => ?_⟩
  obtain ⟨f, hf, rfl⟩ := List.mem_map.1 hline
  rw [fieldLine, List.mem_append, List.mem_cons, List.mem_cons] at hc
  rcases hc with hc | rfl | rfl | hc
  · exact ((hl.headers f hf).name_plain c hc).2
  · decide
  · decide
  · exact (hl.headers f hf).value_plain c hc

/-- **A head that is written is read**, its values without the blanks around them. -/
theorem ofBytes_bytes_trimmed {h : Head} (hl : h.Plain) : ofBytes h.bytes = .ok h.trimmed := by
  have hlines : lines (h.allLines.flatMap closed ++ ['\r', '\n']) = h.allLines ++ [[], []] :=
    lines_allLines fun line hline => unbroken_of_ne_cr (ne_cr_of_mem_allLines hl line hline)
  have hfields : fields (h.headers.map fieldLine ++ [[], []]) =
      .ok (h.headers.map Header.trimmed) :=
    fields_fieldLines hl.headers [[]]
  simp only [ofBytes, bytes, Utf8.decode?_encode, String.toList_ofList, hlines]
  rw [allLines, List.cons_append]
  simp only [statusLine?_statusLine hl, hfields]
  rfl

theorem first?_trimmed (h : Head) (name : String) :
    h.trimmed.headers.first? name = (h.headers.first? name).map Blank.trim := by
  rw [Headers.first?, Headers.first?, trimmed, List.find?_map, Option.map_map, Option.map_map]
  rfl

/-- **A legible head that is written is read back.** -/
theorem ofBytes_bytes {h : Head} (hl : h.Legible) : ofBytes h.bytes = .ok h := by
  rw [ofBytes_bytes_trimmed hl.plain, hl.trimmed_eq]

end Head

/-! ### The end of a head -/

/-- A line of bytes with its end. -/
def closed (line : Bytes) : Bytes := line ++ lineEnd

theorem encode_closed (line : List Char) :
    (Head.closed line).flatMap String.utf8EncodeChar =
      closed (Utf8.encode (String.ofList line)) := by
  rw [Head.closed, List.flatMap_append, closed, Utf8.encode, String.toList_ofList]
  rfl

namespace Head

/-- The head is its lines as bytes, and an empty line. -/
theorem bytes_eq (h : Head) :
    h.bytes = (h.allLines.map fun line => Utf8.encode (String.ofList line)).flatMap Reply.closed ++
      lineEnd := by
  rw [bytes, Utf8.encode, String.toList_ofList, List.flatMap_append, List.flatMap_assoc,
    List.flatMap_map]
  simp only [encode_closed]
  rfl

end Head

/-- A search passes over bytes with which the pattern does not begin. -/
theorem find?_skip {p : UInt8} {pattern run : Bytes} (hrun : ∀ b ∈ run, b ≠ p) (place : Nat)
    (rest : Bytes) :
    Bytes.find? (p :: pattern) place (run ++ rest) =
      Bytes.find? (p :: pattern) (place + run.length) rest := by
  induction run generalizing place with
  | nil => rfl
  | cons b run ih =>
    obtain ⟨hb, htail⟩ := List.forall_mem_cons.1 hrun
    have hprefix : ¬(p :: pattern).isPrefixOf (b :: (run ++ rest)) = true := by
      simp [hb.symm]
    rw [List.cons_append, Bytes.find?, if_neg hprefix, ih htail, List.length_cons, Nat.add_assoc,
      Nat.add_comm 1]

/-- **The end of a head is its first empty line.** -/
theorem find?_headEnd {first : Bytes} {others : List Bytes} (hfirst : ∀ b ∈ first, b ≠ 0x0D)
    (hothers : ∀ line ∈ others, line ≠ [] ∧ ∀ b ∈ line, b ≠ 0x0D) (place : Nat) (rest : Bytes) :
    Bytes.find? headEnd place
        (closed first ++ (others.flatMap closed ++ (lineEnd ++ rest))) =
      some (place + first.length + (others.flatMap closed).length) := by
  induction others generalizing first place with
  | nil =>
    rw [closed, List.append_assoc, headEnd, find?_skip hfirst]
    show Bytes.find? headEnd _ (0x0D :: 0x0A :: 0x0D :: 0x0A :: rest) = _
    rw [Bytes.find?, if_pos (by simp [headEnd])]
    rfl
  | cons line others ih =>
    obtain ⟨⟨hempty, hline⟩, htail⟩ := List.forall_mem_cons.1 hothers
    obtain ⟨b, run, rfl⟩ := List.exists_cons_of_ne_nil hempty
    have hb : b ≠ 0x0D := hline b List.mem_cons_self
    rw [closed, List.append_assoc, List.flatMap_cons, List.append_assoc, headEnd,
      find?_skip hfirst]
    show Bytes.find? headEnd _ (0x0D :: 0x0A :: (closed (b :: run) ++ _)) = _
    have hcr : ¬headEnd.isPrefixOf (0x0D :: 0x0A :: (closed (b :: run) ++
        (others.flatMap closed ++ (lineEnd ++ rest)))) = true := by
      simp [headEnd, closed, hb.symm]
    have hlf : ¬headEnd.isPrefixOf (0x0A :: (closed (b :: run) ++
        (others.flatMap closed ++ (lineEnd ++ rest)))) = true := by
      simp [headEnd]
    rw [Bytes.find?, if_neg hcr, Bytes.find?, if_neg hlf, ih hline htail]
    refine congrArg some ?_
    simp only [closed, List.length_append, lineEnd, List.length_cons, List.length_nil]
    omega

namespace Head

theorem find?_bytes {h : Head} (hl : h.Plain) (rest : Bytes) :
    Bytes.find? headEnd 0 (h.bytes ++ rest) = some (h.bytes.length - 4) := by
  have hcr : ∀ line ∈ h.allLines, ∀ b ∈ Utf8.encode (String.ofList line), b ≠ 0x0D := by
    intro line hline b hb hcr
    subst hcr
    obtain ⟨c, hc, heq⟩ := (Utf8.mem_encode_iff (by decide)).1 hb
    rw [String.toList_ofList] at hc
    exact ne_cr_of_mem_allLines hl line hline c hc (Char.toNat_inj.1 heq)
  have hfirst : ∀ b ∈ Utf8.encode (String.ofList h.statusLine), b ≠ 0x0D :=
    hcr h.statusLine List.mem_cons_self
  have hothers : ∀ line ∈ (h.headers.map fieldLine).map (fun l => Utf8.encode (String.ofList l)),
      line ≠ [] ∧ ∀ b ∈ line, b ≠ 0x0D := by
    intro line hline
    obtain ⟨chars, hchars, rfl⟩ := List.mem_map.1 hline
    refine ⟨?_, hcr chars (List.mem_cons_of_mem _ hchars)⟩
    obtain ⟨f, -, rfl⟩ := List.mem_map.1 hchars
    apply Utf8.encode_ne_nil
    intro hempty
    have hlist := congrArg String.toList hempty
    rw [String.toList_ofList, fieldLine] at hlist
    simp at hlist
  have hfind := find?_headEnd hfirst hothers 0 rest
  rw [bytes_eq, allLines, List.map_cons, List.flatMap_cons, List.append_assoc, List.append_assoc,
    hfind]
  refine congrArg some ?_
  simp only [Reply.closed, List.length_append, lineEnd, List.length_cons, List.length_nil]
  omega

theorem four_le_length_bytes (h : Head) : 4 ≤ h.bytes.length := by
  rw [bytes_eq, allLines, List.map_cons, List.flatMap_cons]
  simp only [Reply.closed, List.length_append, lineEnd, List.length_cons, List.length_nil]
  omega

theorem bytes_ne_nil (h : Head) : h.bytes ≠ [] :=
  List.ne_nil_of_length_pos (Nat.lt_of_lt_of_le (by decide) h.four_le_length_bytes)

/-- Up to its end, counted from where it is found, there is the head. -/
theorem take_bytes (h : Head) (rest : Bytes) :
    (h.bytes ++ rest).take (h.bytes.length - 4 + 4) = h.bytes := by
  rw [Nat.sub_add_cancel h.four_le_length_bytes, List.take_left]

theorem drop_bytes (h : Head) (rest : Bytes) :
    (h.bytes ++ rest).drop (h.bytes.length - 4 + 4) = rest := by
  rw [Nat.sub_add_cancel h.four_le_length_bytes, List.drop_left]

end Head

namespace Reader

/-- **A reader at the start of a head reads it.**  It goes on with what follows. -/
theorem step_start {h : Head} (hl : h.Legible) (method : Method) (maxBody : Nat) (rest : Bytes) :
    (start method maxBody (h.bytes ++ rest)).step =
      (start method maxBody (h.bytes ++ rest)).afterHead h rest := by
  simp only [step, start, List.drop_zero, Head.find?_bytes hl.plain, h.take_bytes, h.drop_bytes,
    Head.ofBytes_bytes hl]

end Reader

end Reply

end HttpExchange
