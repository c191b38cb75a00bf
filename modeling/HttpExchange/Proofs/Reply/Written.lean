import Mathlib.Data.List.TakeWhile
import HttpExchange.Proofs.Reply.HeadText
import HttpExchange.Proofs.Reply.Resume

/-!
# Replies, written and read

What may follow a head, for every way the end of a body is marked, and that the reader finds it:

* `Chunked` — a body cut into chunks; `advance_chunked` reads it back;
* `Framed` — which bytes may follow a head, which body they carry and whether its end is marked;
* `Written` — a whole reply: interim heads, the final head and the body;
* `advance_written`, `advance_written_untilEnd` — the reader finds that reply, and the bytes behind
  it;
* `headsFit_written` — and its heads fit.
-/

namespace HttpExchange.Reply

/-! ### Chunks -/

/-- The line in front of a chunk: its size, and perhaps an extension behind a semicolon. -/
structure SizeLine (size : Nat) where
  numeral : List Char
  denotes : Numeral.Hexadecimal numeral size
  extension : Option (List Char)
  plain : ∀ e ∈ extension, ∀ c ∈ e, c ≠ '\r'

namespace SizeLine

variable {size : Nat}

/-- The line without its end. -/
def text (s : SizeLine size) : List Char :=
  match s.extension with
  | none => s.numeral
  | some e => s.numeral ++ ';' :: e

/-- The line on the wire, without its end. -/
def bytes (s : SizeLine size) : Bytes := Utf8.encode (String.ofList s.text)

end SizeLine

/-- A chunk that is not the last one. -/
structure Chunk where
  data : Bytes
  nonempty : data ≠ []
  size : SizeLine data.length

/-- The chunk on the wire. -/
def Chunk.bytes (c : Chunk) : Bytes := closed c.size.bytes ++ closed c.data

/-- A body in chunks: the chunks, the size line that ends them, and trailer lines. -/
structure Chunked where
  chunks : List Chunk
  last : SizeLine 0
  trailers : List Bytes
  nonempty : ∀ line ∈ trailers, line ≠ []
  plain : ∀ line ∈ trailers, ∀ b ∈ line, b ≠ 0x0D

namespace Chunked

/-- The body on the wire. -/
def bytes (c : Chunked) : Bytes :=
  c.chunks.flatMap Chunk.bytes ++ (closed c.last.bytes ++ (c.trailers.flatMap closed ++ lineEnd))

/-- What the chunks carry. -/
def data (c : Chunked) : Bytes := c.chunks.flatMap Chunk.data

end Chunked

theorem plain_of_isHexDigit {c : Char} {d : Nat} (h : Numeral.IsHexDigit c d) :
    c ≠ ';' ∧ c ≠ '+' ∧ c ≠ '\r' ∧ Blank.isBlank c = false := by
  obtain ⟨hd, hc⟩ := h
  interval_cases d <;> rcases hc with rfl | rfl <;> decide

namespace SizeLine

variable {size : Nat} (s : SizeLine size)

theorem plain_numeral : ∀ c ∈ s.numeral,
    c ≠ ';' ∧ c ≠ '+' ∧ c ≠ '\r' ∧ Blank.isBlank c = false := by
  intro c hc
  obtain ⟨d, hd⟩ := s.denotes.isHexDigit_of_mem hc
  exact plain_of_isHexDigit hd

theorem takeWhile_text : s.text.takeWhile (· != ';') = s.numeral := by
  have hplain : ∀ c ∈ s.numeral, c ≠ ';' := by
    intro c hc
    exact (s.plain_numeral c hc).1
  rw [text]
  cases s.extension with
  | none => exact List.takeWhile_eq_self_iff.2 fun c hc => bne_iff_ne.2 (hplain c hc)
  | some e => exact Head.takeWhile_ne hplain e

/-- The size that is written is read back. -/
theorem chunkSize?_bytes (hsize : size < Numeral.lengthBound) :
    Reader.chunkSize? s.bytes = some size := by
  have hhead : s.numeral.head? ≠ some '+' := by
    intro h
    exact (s.plain_numeral '+' (List.mem_of_head? h)).2.1 rfl
  have hstrip : Blank.stripEnds Blank.isBlank s.numeral = s.numeral :=
    Blank.stripEnds_eq_self
      (fun c hc => (s.plain_numeral c (List.mem_of_head? hc)).2.2.2)
      (fun c hc => (s.plain_numeral c (List.mem_of_getLast? hc)).2.2.2)
  simp only [Reader.chunkSize?, bytes, Utf8.decode?_encode, String.toList_ofList, s.takeWhile_text,
    hstrip]
  exact Numeral.bounded?_of_digits? hsize hhead (Numeral.digits?_of_hexadecimal s.denotes)

theorem ne_cr_of_mem_bytes : ∀ b ∈ s.bytes, b ≠ 0x0D := by
  have htext : ∀ c ∈ s.text, c ≠ '\r' := by
    intro c hc
    rw [text] at hc
    cases he : s.extension with
    | none =>
      rw [he] at hc
      exact (s.plain_numeral c hc).2.2.1
    | some e =>
      rw [he] at hc
      rcases List.mem_append.1 hc with hc | hc
      · exact (s.plain_numeral c hc).2.2.1
      · rcases List.mem_cons.1 hc with rfl | hc
        · decide
        · exact s.plain e he c hc
  intro b hb hcr
  subst hcr
  obtain ⟨c, hc, heq⟩ := (Utf8.mem_encode_iff (by decide)).1 hb
  rw [String.toList_ofList] at hc
  exact htext c hc (Char.toNat_inj.1 heq)

end SizeLine

namespace Reader

/-- The first line is cut off at its end. -/
theorem cutLine_closed {line : Bytes} (hline : ∀ b ∈ line, b ≠ 0x0D) (rest : Bytes) :
    cutLine (closed line ++ rest) = some (line, rest) := by
  have hfind : Bytes.find? lineEnd 0 (closed line ++ rest) = some line.length := by
    rw [closed, List.append_assoc, lineEnd, find?_skip hline]
    show Bytes.find? lineEnd _ (0x0D :: 0x0A :: rest) = _
    rw [Bytes.find?, if_pos (by simp [lineEnd]), Nat.zero_add]
  rw [cutLine, hfind, Option.map_some, closed, List.append_assoc, List.take_left, List.drop_append]
  simp [lineEnd]

/-- Trailer lines are passed over up to the empty line. -/
theorem advance_trailers (r : Reader) (head : Head) (body : Array UInt8) {trailers : List Bytes}
    (hnonempty : ∀ line ∈ trailers, line ≠ []) (hplain : ∀ line ∈ trailers, ∀ b ∈ line, b ≠ 0x0D)
    (rest : Bytes) :
    (r.goto (.trailers head body) (trailers.flatMap closed ++ lineEnd ++ rest)).advance =
      .complete head body.toList true rest := by
  induction trailers with
  | nil =>
    have hcut : cutLine (lineEnd ++ rest) = some ([], rest) :=
      @cutLine_closed [] (by simp) rest
    apply advance_of_stop
    simp only [step, goto, List.flatMap_nil, List.nil_append, hcut]
    rfl
  | cons line trailers ih =>
    obtain ⟨hempty, hnonempty⟩ := List.forall_mem_cons.1 hnonempty
    obtain ⟨hline, hplain⟩ := List.forall_mem_cons.1 hplain
    have hcut := cutLine_closed hline (trailers.flatMap closed ++ lineEnd ++ rest)
    rw [← ih hnonempty hplain]
    apply advance_of_again
    simp only [step, goto, List.flatMap_cons, List.append_assoc] at hcut ⊢
    simp only [hcut]
    rw [if_neg (by simpa using hempty)]

/-- A chunk is taken whole, and its data goes to the body. -/
theorem advance_chunk (r : Reader) (head : Head) (body : Array UInt8) (c : Chunk) (rest : Bytes)
    (hbody : body.size + c.data.length ≤ r.maxBody) (hmax : r.maxBody < Numeral.lengthBound) :
    (r.goto (.chunkSize head body) (c.bytes ++ rest)).advance =
      (r.goto (.chunkSize head (body ++ c.data)) rest).advance := by
  have hsize := c.size.chunkSize?_bytes (by omega)
  have hpos : c.data.length ≠ 0 := by
    intro h
    exact c.nonempty (List.length_eq_zero_iff.1 h)
  have hgrown : ¬r.maxBody < grown body.size c.data.length := by
    rw [grown]
    omega
  have hline := cutLine_closed c.size.ne_cr_of_mem_bytes (closed c.data ++ rest)
  have hend : cutLine (lineEnd ++ rest) = some ([], rest) := @cutLine_closed [] (by simp) rest
  have hfirst : (r.goto (.chunkSize head body) (c.bytes ++ rest)).step =
      .again (r.goto (.chunkData head body c.data.length) (closed c.data ++ rest)) := by
    simp only [step, goto, Chunk.bytes, List.append_assoc, hline, hsize]
    rw [if_neg hgrown]
  have hdata : (r.goto (.chunkData head body c.data.length) (closed c.data ++ rest)).step =
      .again (r.goto (.chunkEnd head (body ++ c.data)) (lineEnd ++ rest)) := by
    have hlong : ¬(c.data ++ (lineEnd ++ rest)).length < c.data.length := by
      rw [List.length_append]
      omega
    simp only [step, goto, closed, List.append_assoc, if_neg hlong, List.take_left, List.drop_left]
  have hlast : (r.goto (.chunkEnd head (body ++ c.data)) (lineEnd ++ rest)).step =
      .again (r.goto (.chunkSize head (body ++ c.data)) rest) := by
    simp only [step, goto, hend]
    rfl
  rw [advance_of_again hfirst, advance_of_again hdata, advance_of_again hlast]

/-- Chunks are taken one after another. -/
theorem advance_chunks (r : Reader) (head : Head) (chunks : List Chunk) (rest : Bytes)
    (hmax : r.maxBody < Numeral.lengthBound) :
    ∀ body : Array UInt8, body.size + (chunks.flatMap Chunk.data).length ≤ r.maxBody →
      ∃ whole : Array UInt8, whole.toList = body.toList ++ chunks.flatMap Chunk.data ∧
        (r.goto (.chunkSize head body) (chunks.flatMap Chunk.bytes ++ rest)).advance =
          (r.goto (.chunkSize head whole) rest).advance := by
  induction chunks with
  | nil =>
    intro body _
    exact ⟨body, (List.append_nil _).symm, rfl⟩
  | cons c chunks ih =>
    intro body hbody
    rw [List.flatMap_cons, List.length_append] at hbody
    have hsize : (body ++ c.data).size = body.size + c.data.length := by
      rw [← Array.length_toList, Array.toList_appendList, List.length_append, Array.length_toList]
    obtain ⟨whole, hwhole, hadvance⟩ := ih (body ++ c.data) (by omega)
    refine ⟨whole, ?_, ?_⟩
    · rw [hwhole, Array.toList_appendList, List.flatMap_cons, List.append_assoc]
    · rw [List.flatMap_cons, List.append_assoc, advance_chunk r head body c _ (by omega) hmax,
        hadvance]

/-- **A body in chunks is read back.** -/
theorem advance_chunked (r : Reader) (head : Head) (c : Chunked) (rest : Bytes)
    (hbody : c.data.length ≤ r.maxBody) (hmax : r.maxBody < Numeral.lengthBound) :
    (r.goto (.chunkSize head #[]) (c.bytes ++ rest)).advance =
      .complete head c.data true rest := by
  obtain ⟨whole, hwhole, hadvance⟩ := advance_chunks r head c.chunks
    (closed c.last.bytes ++ (c.trailers.flatMap closed ++ lineEnd ++ rest)) hmax #[]
    (by simpa [Chunked.data] using hbody)
  have hline := cutLine_closed c.last.ne_cr_of_mem_bytes (c.trailers.flatMap closed ++ lineEnd ++ rest)
  have hsize := c.last.chunkSize?_bytes (by decide)
  have hlast : (r.goto (.chunkSize head whole)
      (closed c.last.bytes ++ (c.trailers.flatMap closed ++ lineEnd ++ rest))).step =
        .again (r.goto (.trailers head whole) (c.trailers.flatMap closed ++ lineEnd ++ rest)) := by
    simp only [step, goto, hline, hsize]
  rw [Chunked.bytes, List.append_assoc, List.append_assoc, hadvance, advance_of_again hlast,
    advance_trailers r head whole c.nonempty c.plain rest, hwhole]
  rfl

end Reader

/-! ### Bodies -/

/-- Whether a header names the chunked coding. -/
def Head.NamesChunked (h : Head) : Prop :=
  ∃ value, h.headers.first? "Transfer-Encoding" = some value ∧
    "chunked".toList <:+: value.toList.map Char.toLower

theorem occursIn_iff (needle hay : List Char) :
    Ascii.occursIn needle hay = true ↔ needle <:+: hay := by
  induction hay with
  | nil => rw [Ascii.occursIn, List.isEmpty_iff, List.infix_nil]
  | cons c hay ih =>
    rw [Ascii.occursIn, Bool.or_eq_true, ih, List.isPrefixOf_iff_prefix, List.infix_cons_iff]

theorem isChunked_iff (h : Head) : h.isChunked = true ↔ h.NamesChunked := by
  rw [Head.isChunked, Head.NamesChunked]
  cases h.headers.first? "Transfer-Encoding" with
  | none => simp
  | some value => simp [occursIn_iff]

/-- A reply without a body, whatever its fields say. -/
def Bodiless (method : Method) (head : Head) : Prop :=
  method = .head ∨ head.status = 204 ∨ head.status = 304

theorem bodiless_iff {method : Method} {head : Head} : Bodiless method head ↔
    (decide (method = .head) || head.status == 204 || head.status == 304) = true := by
  simp [Bodiless, or_assoc]

/-- The bytes that may follow a head in reply to a method, the body they carry, and whether they
mark its end. -/
inductive Framed (method : Method) (head : Head) : Bytes → Bytes → Bool → Prop
  | bodiless : Bodiless method head → Framed method head [] [] true
  | chunked (c : Chunked) : ¬Bodiless method head → head.NamesChunked →
      Framed method head c.bytes c.data true
  | counted (body : Bytes) : ¬Bodiless method head → ¬head.NamesChunked →
      head.headers.first? "Content-Length" = some (Numeral.decimal body.length) →
      Framed method head body body true
  | untilEnd (body : Bytes) : ¬Bodiless method head → ¬head.NamesChunked →
      head.headers.first? "Content-Length" = none → Framed method head body body false

/-- A reply to a method as it is sent: any number of interim heads, the final head and the body. -/
structure Written (method : Method) where
  interims : List Head
  interims_legible : ∀ h ∈ interims, h.Legible
  interims_status : ∀ h ∈ interims, h.status < 200 ∧ h.status ≠ 101
  head : Head
  head_legible : head.Legible
  head_status : head.status = 101 ∨ 200 ≤ head.status
  heads_fit : ∀ h ∈ head :: interims, h.bytes.length ≤ maxHead
  body : Bytes
  wire : Bytes
  delimited : Bool
  framed : Framed method head wire body delimited

namespace Written

variable {method : Method} (w : Written method)

/-- The reply on the wire. -/
def bytes : Bytes := w.interims.flatMap Head.bytes ++ (w.head.bytes ++ w.wire)

theorem isInterim_head : w.head.isInterim = false := by
  rw [Head.isInterim]
  rcases w.head_status with hupgrade | hfinal
  · simp [hupgrade]
  · simp [Nat.not_lt.2 hfinal]

theorem isInterim_of_mem {h : Head} (hmem : h ∈ w.interims) : h.isInterim = true := by
  have hlow := (w.interims_legible h hmem).status_ge
  obtain ⟨hhigh, hupgrade⟩ := w.interims_status h hmem
  simp [Head.isInterim, hlow, hhigh, hupgrade]

end Written

namespace Reader

variable {r : Reader} {head : Head} {bytes body rest : Bytes}

theorem afterHead_of_bodiless (hfinal : head.isInterim = false) (h : Bodiless r.method head) :
    r.afterHead head rest = .stop (.complete head [] true rest) := by
  rw [afterHead, if_neg (Bool.eq_false_iff.1 hfinal), if_pos (bodiless_iff.1 h)]

theorem afterHead_of_chunked (hfinal : head.isInterim = false) (h : ¬Bodiless r.method head)
    (hchunked : head.NamesChunked) :
    r.afterHead head rest = .again (r.goto (.chunkSize head #[]) rest) := by
  rw [afterHead, if_neg (Bool.eq_false_iff.1 hfinal), if_neg (mt bodiless_iff.2 h),
    if_pos ((isChunked_iff head).2 hchunked)]

theorem afterHead_of_counted (hfinal : head.isInterim = false) (h : ¬Bodiless r.method head)
    (hchunked : ¬head.NamesChunked) {length : Nat}
    (hlength : head.headers.first? "Content-Length" = some (Numeral.decimal length))
    (hbody : length ≤ r.maxBody) (hmax : r.maxBody < Numeral.lengthBound) :
    r.afterHead head rest = .again (r.goto (.counted head length) rest) := by
  have hread : Numeral.bounded? 10 Numeral.lengthBound
      (Blank.trim (Numeral.decimal length)).toList = some length := by
    rw [Blank.trim_decimal, Head.bounded?_decimal (by omega)]
  rw [afterHead, if_neg (Bool.eq_false_iff.1 hfinal), if_neg (mt bodiless_iff.2 h),
    if_neg (mt (isChunked_iff head).1 hchunked)]
  simp only [hlength, hread]
  rw [if_neg (Nat.not_lt.2 hbody)]

theorem afterHead_of_untilEnd (hfinal : head.isInterim = false) (h : ¬Bodiless r.method head)
    (hchunked : ¬head.NamesChunked) (hlength : head.headers.first? "Content-Length" = none) :
    r.afterHead head rest = .again (r.goto (.untilEnd head) rest) := by
  rw [afterHead, if_neg (Bool.eq_false_iff.1 hfinal), if_neg (mt bodiless_iff.2 h),
    if_neg (mt (isChunked_iff head).1 hchunked)]
  simp only [hlength]

/-- **A marked end is found.**  After the head the body is read, and what follows it is left. -/
theorem advance_delimited (hstep : r.step = r.afterHead head (bytes ++ rest))
    (hfinal : head.isInterim = false) (hframed : Framed r.method head bytes body true)
    (hbody : body.length ≤ r.maxBody) (hmax : r.maxBody < Numeral.lengthBound) :
    r.advance = .complete head body true rest := by
  cases hframed with
  | bodiless h =>
    rw [List.nil_append, afterHead_of_bodiless hfinal h] at hstep
    exact advance_of_stop hstep
  | chunked c h hchunked =>
    rw [afterHead_of_chunked hfinal h hchunked] at hstep
    rw [advance_of_again hstep]
    exact advance_chunked r head c rest hbody hmax
  | counted whole h hchunked hlength =>
    rw [afterHead_of_counted hfinal h hchunked hlength hbody hmax] at hstep
    have hlong : ¬(bytes ++ rest).length < bytes.length := by
      rw [List.length_append]
      omega
    have hstop : (r.goto (.counted head bytes.length) (bytes ++ rest)).step =
        .stop (.complete head ((bytes ++ rest).take bytes.length) true
          ((bytes ++ rest).drop bytes.length)) := if_neg hlong
    rw [advance_of_again hstep, advance_of_stop hstop, List.take_left, List.drop_left]

/-- A body without a marked end is gathered until the stream ends. -/
theorem advance_untilEnd (hstep : r.step = r.afterHead head bytes)
    (hfinal : head.isInterim = false) (hframed : Framed r.method head bytes body false)
    (hbody : body.length ≤ r.maxBody) :
    r.advance = .wants (r.goto (.untilEnd head) body) := by
  cases hframed with
  | untilEnd whole h hchunked hlength =>
    rw [afterHead_of_untilEnd hfinal h hchunked hlength] at hstep
    have hstop : (r.goto (.untilEnd head) bytes).step =
        .stop (.wants (r.goto (.untilEnd head) bytes)) := if_neg (Nat.not_lt.2 hbody)
    rw [advance_of_again hstep, advance_of_stop hstop]

/-! ### Whole replies -/

/-- An interim head is passed over. -/
theorem step_start_interim {h : Head} (hl : h.Legible) (hinterim : h.isInterim = true)
    (method : Method) (maxBody : Nat) (rest : Bytes) :
    (start method maxBody (h.bytes ++ rest)).step = .again (start method maxBody rest) := by
  rw [step_start hl, afterHead, if_pos hinterim]
  rfl

theorem advance_interims {method : Method} {maxBody : Nat} {interims : List Head}
    (hinterims : ∀ h ∈ interims, h.Legible ∧ h.isInterim = true) (rest : Bytes) :
    (start method maxBody (interims.flatMap Head.bytes ++ rest)).advance =
      (start method maxBody rest).advance := by
  induction interims with
  | nil => rfl
  | cons h interims ih =>
    obtain ⟨⟨hl, hinterim⟩, htail⟩ := List.forall_mem_cons.1 hinterims
    rw [List.flatMap_cons, List.append_assoc, advance_of_again
      (step_start_interim hl hinterim method maxBody _), ih htail]

/-! ### Heads that fit -/

/-- A reader within a body. -/
def InBody (r : Reader) : Prop := ∀ searched, r.stage ≠ .head searched

theorem inBody_of_afterHead {r s : Reader} {head : Head} {buffer : Bytes}
    (hfinal : head.isInterim = false) (h : r.afterHead head buffer = .again s) : s.InBody := by
  intro searched hs
  rw [afterHead, if_neg (Bool.eq_false_iff.1 hfinal)] at h
  repeat' split at h
  all_goals first | (cases h; cases hs) | cases h

theorem inBody_of_again {r s : Reader} (hr : r.InBody) (h : r.step = .again s) : s.InBody := by
  intro searched hs
  simp only [step] at h
  split at h
  · next hstage => exact hr _ hstage
  all_goals
    repeat' split at h
    all_goals first | (cases h; cases hs) | cases h

theorem InBody.headsFit {r : Reader} (hr : r.InBody) : r.HeadsFit := by
  intro t searched place hpasses hstage
  induction hpasses with
  | refl r => exact absurd hstage (hr searched)
  | again hstep _ ih => exact ih (inBody_of_again hr hstep) hstage

/-- A head that is written fits if it is short enough, and so do all behind it. -/
theorem headsFit_start {h : Head} (hl : h.Legible) (hlength : h.bytes.length ≤ maxHead)
    {method : Method} {maxBody : Nat} {rest : Bytes}
    (hnext : ∀ s, (start method maxBody (h.bytes ++ rest)).step = .again s → s.HeadsFit) :
    (start method maxBody (h.bytes ++ rest)).HeadsFit := by
  intro t searched place hpasses hstage hfind
  cases hpasses with
  | refl =>
    cases hstage
    rw [List.drop_zero] at hfind
    rw [show (start method maxBody (h.bytes ++ rest)).buffer = h.bytes ++ rest from rfl,
      Head.find?_bytes hl.plain] at hfind
    obtain rfl := Option.some.inj hfind
    have := h.four_le_length_bytes
    omega
  | again hstep hrest => exact hnext _ hstep t searched place hrest hstage hfind

theorem headsFit_interims {method : Method} {maxBody : Nat} {interims : List Head}
    (hinterims : ∀ h ∈ interims, h.Legible ∧ h.isInterim = true)
    (hlength : ∀ h ∈ interims, h.bytes.length ≤ maxHead) {rest : Bytes}
    (hrest : (start method maxBody rest).HeadsFit) :
    (start method maxBody (interims.flatMap Head.bytes ++ rest)).HeadsFit := by
  induction interims with
  | nil => exact hrest
  | cons h interims ih =>
    obtain ⟨⟨hl, hinterim⟩, htail⟩ := List.forall_mem_cons.1 hinterims
    obtain ⟨hlen, hlens⟩ := List.forall_mem_cons.1 hlength
    rw [List.flatMap_cons, List.append_assoc]
    apply headsFit_start hl hlen
    intro s hstep
    rw [step_start_interim hl hinterim] at hstep
    obtain rfl := Move.again.inj hstep
    exact ih htail hlens

variable {method : Method} (w : Written method)

/-- The heads of a reply that is written fit. -/
theorem headsFit_written (maxBody : Nat) (rest : Bytes) :
    (start method maxBody (w.bytes ++ rest)).HeadsFit := by
  obtain ⟨hhead, hinterims⟩ := List.forall_mem_cons.1 w.heads_fit
  rw [Written.bytes, List.append_assoc, List.append_assoc]
  apply headsFit_interims (fun h hmem => ⟨w.interims_legible h hmem, w.isInterim_of_mem hmem⟩)
    hinterims
  apply headsFit_start w.head_legible hhead
  intro s hstep
  rw [step_start w.head_legible] at hstep
  exact (inBody_of_afterHead w.isInterim_head hstep).headsFit

/-- The interim heads of a reply that is written are passed over. -/
theorem advance_written_eq (maxBody : Nat) (rest : Bytes) :
    (start method maxBody (w.bytes ++ rest)).advance =
      (start method maxBody (w.head.bytes ++ (w.wire ++ rest))).advance := by
  rw [Written.bytes, List.append_assoc, List.append_assoc]
  exact advance_interims (fun h hmem => ⟨w.interims_legible h hmem, w.isInterim_of_mem hmem⟩) _

/-- **A reply with a marked end is read back**, and the bytes behind it are left. -/
theorem advance_written {maxBody : Nat} (hdelimited : w.delimited = true)
    (hbody : w.body.length ≤ maxBody) (hmax : maxBody < Numeral.lengthBound) (rest : Bytes) :
    (start method maxBody (w.bytes ++ rest)).advance = .complete w.head w.body true rest := by
  have hframed := w.framed
  rw [hdelimited] at hframed
  rw [advance_written_eq]
  exact advance_delimited (step_start w.head_legible method maxBody _) w.isInterim_head hframed
    hbody hmax

/-- A reply that the end of the stream ends is gathered until then. -/
theorem advance_written_untilEnd {maxBody : Nat} (hdelimited : w.delimited = false)
    (hbody : w.body.length ≤ maxBody) :
    ∃ r : Reader, r.stage = .untilEnd w.head ∧ r.buffer = w.body ∧
      (start method maxBody w.bytes).advance = .wants r := by
  have hframed := w.framed
  rw [hdelimited] at hframed
  have hadvance := advance_written_eq w maxBody []
  rw [List.append_nil, List.append_nil] at hadvance
  rw [hadvance]
  exact ⟨_, rfl, rfl, advance_untilEnd (step_start w.head_legible method maxBody _)
    w.isInterim_head hframed hbody⟩

end Reader

end HttpExchange.Reply
