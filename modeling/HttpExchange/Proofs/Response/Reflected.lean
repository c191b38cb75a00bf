import HttpExchange.Proofs.Head.Plain
import HttpExchange.Response.Wire

/-!
# What is read may be reflected

A handler may put texts of a request into its response.  Whatever bytes these texts were read from,
they hold no line end, so they cannot begin a line of their own: the lines of the head are the status
line, one for each field and those that are added.

* `Head.IsReadName`, `Head.IsReadText` — the texts of some request, as far as it has been read;
* `Response.lines`, `headBytes_eq_lines` — the head, line by line;
* `head_reflected` — none of these lines holds a line end.
-/

namespace HttpExchange

/-! ### Texts without line ends -/

/-- A text of one line: neither CR nor LF is among its bytes. -/
def IsOneLine (s : String) : Prop := ∀ b ∈ Utf8.encode s, Head.isLineEnd b = false

instance (s : String) : Decidable (IsOneLine s) :=
  List.decidableBAll (fun b => Head.isLineEnd b = false) (Utf8.encode s)

theorem isOneLine_append {s t : String} (hs : IsOneLine s) (ht : IsOneLine t) :
    IsOneLine (s ++ t) := by
  intro b hb
  rw [Utf8.encode_append] at hb
  rcases List.mem_append.1 hb with hb | hb
  · exact hs b hb
  · exact ht b hb

namespace Head

theorem not_isLineEnd_of_class {p : UInt8 → Bool} {b : UInt8} (hb : p b = true)
    (hcr : p cr = false) (hlf : p lf = false) : isLineEnd b = false := by
  rw [Bool.eq_false_iff]
  intro hline
  rcases isLineEnd_iff.1 hline with rfl | rfl
  · rw [hb] at hcr
    cases hcr
  · rw [hb] at hlf
    cases hlf

theorem isOneLine_of_controls {s : String} (h : ∀ c ∈ s.toList, IsControl c → c = '\t') :
    IsOneLine s := by
  intro b hb
  exact not_isLineEnd_of_class (isValueByte_of_mem_encode h b hb) (by decide) (by decide)

theorem isOneLine_decimal (n : Nat) : IsOneLine (Numeral.decimal n) := by
  refine isOneLine_of_controls fun c hc hcontrol => ?_
  obtain ⟨hlow, hhigh⟩ := (Numeral.isDigit_iff c).1 (Numeral.isDigit_of_mem_decimal hc)
  rcases hcontrol with h | h <;> omega

theorem isOneLine_reason (status : Status) : IsOneLine status.reason := by
  cases status <;> decide

/-! ### What is read -/

/-- The drafts that a new reader comes to by any pieces of input. -/
def Reached (d : Draft) : Prop :=
  ∃ (limit : Nat) (pieces : List Bytes), ((Reader.ofLimit limit).feedOn {} pieces).2 = d

theorem Reached.plain {d : Draft} (h : Reached d) : d.Plain := by
  obtain ⟨limit, pieces, rfl⟩ := h
  exact (Reader.plain_feedOn (Reader.plain_ofLimit limit) pieces).draft

/-- The name of a field that has been read. -/
def IsReadName (s : String) : Prop := ∃ d, Reached d ∧ ∃ h ∈ d.fields, h.name = s

/-- A text that has been read: a target, a version, or the name or the value of a field. -/
def IsReadText (s : String) : Prop :=
  ∃ d, Reached d ∧ (d.target = s ∨ d.version = s ∨ ∃ h ∈ d.fields, h.name = s ∨ h.value = s)

theorem IsReadName.isReadText {s : String} (h : IsReadName s) : IsReadText s := by
  obtain ⟨d, hd, f, hf, hname⟩ := h
  exact ⟨d, hd, .inr (.inr ⟨f, hf, .inl hname⟩)⟩

/-- **A text that has been read is one line.** -/
theorem IsReadText.isOneLine {s : String} (h : IsReadText s) : IsOneLine s := by
  obtain ⟨d, hd, rfl | rfl | ⟨f, hf, rfl | rfl⟩⟩ := h
  · apply isOneLine_of_controls
    intro c hc hcontrol
    exact absurd hcontrol (hd.plain.target c hc).2
  · rcases hd.plain.version with hempty | ⟨major, minor, hmajor, hminor, hversion⟩
    · rw [hempty]
      decide
    · intro b hb
      rw [hversion, Utf8.encode_ascii (Reader.toNat_le_of_mem_versionBytes hmajor hminor)] at hb
      exact Reader.not_isLineEnd_of_mem_versionBytes hmajor hminor b hb
  · intro b hb
    have htoken := (hd.plain.fields f hf).name_token b hb
    exact not_isLineEnd_of_class htoken (by decide) (by decide)
  · exact isOneLine_of_controls (hd.plain.fields f hf).value_plain

end Head

/-! ### The lines of a response -/

namespace Response

open Head

/-- The lines of a head, without their ends and without the empty line: the status line, one for each
field, the length unless it is declared or may not be, and the end of the connection unless the
fields say otherwise. -/
def lines (r : Response) : List String :=
  ("HTTP/1.1 " ++ Numeral.decimal r.status.code ++ " " ++ r.status.reason) ::
    r.headers.map (fun h => h.name ++ ": " ++ h.value)
    ++ (if r.needsLength then ["Content-Length: " ++ Numeral.decimal r.bodyLength] else [])
    ++ (if r.headers.has "Connection" then [] else ["Connection: close"])

/-- A line on the wire. -/
def closed (line : String) : Bytes := Utf8.encode line ++ [cr, lf]

theorem closed_eq (line : String) : closed line = Utf8.encode (line ++ "\r\n") := by
  rw [closed, Utf8.encode_append]
  rfl

theorem encode_fieldLines (hs : Headers) :
    Utf8.encode (String.join (hs.map fieldLine)) =
      (hs.map fun h => h.name ++ ": " ++ h.value).flatMap closed := by
  induction hs with
  | nil => rfl
  | cons h hs ih =>
    rw [List.map_cons, String.join_cons, Utf8.encode_append, ih, List.map_cons, List.flatMap_cons,
      closed_eq, fieldLine]

/-- The head is its lines, each with its end, and an empty line. -/
theorem headBytes_eq_lines (r : Response) : r.headBytes = r.lines.flatMap closed ++ [cr, lf] := by
  have hlength : Utf8.encode (if r.needsLength then
        fieldLine ⟨"Content-Length", Numeral.decimal r.bodyLength⟩ else "") =
      (if r.needsLength then ["Content-Length: " ++ Numeral.decimal r.bodyLength] else []).flatMap
        closed := by
    split
    · rw [List.flatMap_singleton, closed_eq]
      rfl
    · rfl
  have hclose : Utf8.encode (if r.headers.has "Connection" then ""
        else fieldLine ⟨"Connection", "close"⟩) =
      (if r.headers.has "Connection" then [] else ["Connection: close"]).flatMap closed := by
    split <;> rfl
  unfold headBytes headText
  rw [← closed_eq, closed, Utf8.encode_append, Utf8.encode_append,
    Utf8.encode_append, encode_fieldLines, hlength, hclose, ← closed_eq, lines,
    List.flatMap_append, List.flatMap_append, List.flatMap_cons]

theorem isOneLine_of_mem_lines {r : Response}
    (hfields : ∀ h ∈ r.headers, IsOneLine h.name ∧ IsOneLine h.value) :
    ∀ line ∈ r.lines, IsOneLine line := by
  have hmark : IsOneLine ": " ∧ IsOneLine " " := by decide
  intro line hline
  rw [lines, List.mem_append, List.mem_append, List.mem_cons, List.mem_map] at hline
  rcases hline with ((rfl | ⟨h, hh, rfl⟩) | hlength) | hclose
  · have hversion : IsOneLine "HTTP/1.1 " := by decide
    exact isOneLine_append (isOneLine_append (isOneLine_append hversion (isOneLine_decimal _))
      hmark.2) (isOneLine_reason _)
  · obtain ⟨hname, hvalue⟩ := hfields h hh
    exact isOneLine_append (isOneLine_append hname hmark.1) hvalue
  · split at hlength
    · have hname : IsOneLine "Content-Length: " := by decide
      rw [List.mem_singleton.1 hlength]
      exact isOneLine_append hname (isOneLine_decimal _)
    · cases hlength
  · split at hclose
    · cases hclose
    · rw [List.mem_singleton.1 hclose]
      decide

/-- **What has been read may be reflected.**  Whatever pieces of input a new reader takes, under any
limit, and whether or not it has refused some of them: the target has no space and no control
character, the version is that of a request line or still empty, every name is a token, and every
value is without control characters but the tab and without padding at its ends.  So whatever
response has such names for the names of its fields and such texts for their values, its head is one
line of status, one line for each field and those that are added, each with its end, and an empty
line; and no other CR or LF is in it. -/
theorem head_reflected :
    (∀ (limit : Nat) (pieces : List Bytes), ((Reader.ofLimit limit).feedOn {} pieces).2.Plain) ∧
    ∀ r : Response, (∀ h ∈ r.headers, IsReadName h.name ∧ IsReadText h.value) →
      r.buffers.head? =
        some (r.lines.flatMap (fun line => Utf8.encode line ++ [cr, lf]) ++ [cr, lf]) ∧
      ∀ line ∈ r.lines, cr ∉ Utf8.encode line ∧ lf ∉ Utf8.encode line := by
  refine ⟨fun limit pieces => Reached.plain ⟨limit, pieces, rfl⟩, fun r hread => ⟨?_, ?_⟩⟩
  · show some r.headBytes = _
    rw [headBytes_eq_lines]
    rfl
  · intro line hline
    have hone : IsOneLine line := by
      refine isOneLine_of_mem_lines (fun h hh => ?_) line hline
      obtain ⟨hname, hvalue⟩ := hread h hh
      exact ⟨hname.isReadText.isOneLine, hvalue.isOneLine⟩
    constructor
    · intro hcr
      exact absurd (hone cr hcr) (by decide)
    · intro hlf
      exact absurd (hone lf hlf) (by decide)

/-- A head with a note, in two pieces. -/
def notedPieces : List Bytes :=
  [Utf8.encode "GET /a HTTP/1.1\r\nX-No", Utf8.encode "te: one \r\n\r\n"]

/-- What is read of it. -/
def notedDraft : Draft := ⟨.get, "/a", "HTTP/1.1", [⟨"X-Note", "one"⟩]⟩

theorem reached_noted : Reached notedDraft := ⟨100, notedPieces, by decide +kernel⟩

/-- A response that gives the note back, and the target under its name. -/
def reflecting : Response := { headers := [⟨"X-Note", "one"⟩, ⟨"X-Note", "/a"⟩] }

/-- It has five lines, and no line end within them. -/
theorem head_reflected_noted :
    (∀ h ∈ reflecting.headers, IsReadName h.name ∧ IsReadText h.value) ∧
    reflecting.lines = ["HTTP/1.1 200 OK", "X-Note: one", "X-Note: /a", "Content-Length: 0",
      "Connection: close"] ∧
    reflecting.buffers.head? = some (reflecting.lines.flatMap
      (fun line => Utf8.encode line ++ [cr, lf]) ++ [cr, lf]) ∧
    ∀ line ∈ reflecting.lines, cr ∉ Utf8.encode line ∧ lf ∉ Utf8.encode line := by
  have hname : IsReadName "X-Note" :=
    ⟨notedDraft, reached_noted, ⟨"X-Note", "one"⟩, List.mem_singleton_self _, rfl⟩
  have hread : ∀ h ∈ reflecting.headers, IsReadName h.name ∧ IsReadText h.value := by
    refine List.forall_mem_cons.2 ⟨⟨hname, ?_⟩, List.forall_mem_singleton.2 ⟨hname, ?_⟩⟩
    · exact ⟨notedDraft, reached_noted, .inr (.inr ⟨_, List.mem_singleton_self _, .inr rfl⟩)⟩
    · exact ⟨notedDraft, reached_noted, .inl rfl⟩
  obtain ⟨hhead, hlines⟩ := head_reflected.2 reflecting hread
  exact ⟨hread, by decide, hhead, hlines⟩

end Response

end HttpExchange
