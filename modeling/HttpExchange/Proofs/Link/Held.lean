import HttpExchange.Proofs.Link.Moves

/-!
# How much a link holds while it is read

While a reply is read, bytes gather in the buffer of the link, and the chunks of a body are put
together beside it.  Before more is read, a head is held against the longest there may be, and a
body against its limit, however its end is marked.  Not so the lines between chunks: that of a
chunk's size, the end of its data, and the trailers.  Of such a line, all is kept that has come.

* `Reader.held`, `Reader.line` — what is held, and what of it is such a line;
* `Reader.Within.again`, `Reader.Within.received` — what a move of a reader and a read preserve;
* `Link.Amid`, `Link.held_le` — at every moment of an exchange, all but such a line is bounded;
* `Link.held_fails` — the line is not.
-/

namespace HttpExchange

namespace Reply

/-- How much of a chunked body has been put together. -/
def Stage.taken : Stage → Nat
  | chunkSize _ body => body.size
  | chunkData _ body _ => body.size
  | chunkEnd _ body => body.size
  | trailers _ body => body.size
  | _ => 0

/-- Whether a line is waited for, between chunks or after them. -/
def Stage.awaitsLine : Stage → Bool
  | chunkSize _ _ => true
  | chunkEnd _ _ => true
  | trailers _ _ => true
  | _ => false

/-- What is still to come of a body is within its limit. -/
def Stage.Fits (limit : Nat) : Stage → Prop
  | counted _ length => length ≤ limit
  | chunkData _ body size => body.size + size ≤ limit
  | stage => stage.taken ≤ limit

namespace Reader

/-- The bytes that a reader holds: those at hand, and the chunks that it has taken. -/
def held (r : Reader) : Nat := r.buffer.length + r.stage.taken

/-- How many of them are the line that it is in, with the end of it. -/
def line (r : Reader) : Nat :=
  if r.stage.awaitsLine then
    match cutLine r.buffer with
    | none => r.buffer.length
    | some (line, _) => line.length + lineEnd.length
  else 0

variable {r s : Reader} {bytes rest : Bytes} {limit most bound : Nat}

/-! ### Lines -/

theorem length_of_cutLine {buffer line : Bytes} (h : cutLine buffer = some (line, rest)) :
    line.length + lineEnd.length + rest.length = buffer.length := by
  rw [cutLine, Option.map_eq_some_iff] at h
  obtain ⟨place, hfind, hcut⟩ := h
  have hle := (Bytes.find?_add_length_le hfind).2
  cases hcut
  rw [show lineEnd.length = 2 from rfl] at hle ⊢
  rw [List.length_take, List.length_drop]
  omega

/-- A line that was not at its end before has no more behind it than has come since. -/
theorem length_le_of_cutLine_append {buffer line : Bytes} (hnone : cutLine buffer = none)
    (h : cutLine (buffer ++ bytes) = some (line, rest)) : rest.length ≤ bytes.length := by
  have hall := length_of_cutLine h
  rw [List.length_append] at hall
  rw [cutLine, Option.map_eq_none_iff] at hnone
  rw [cutLine, Option.map_eq_some_iff] at h
  obtain ⟨place, hfind, hcut⟩ := h
  have hle := (Bytes.find?_add_length_le hfind).2
  have hline : line.length = place := by
    cases hcut
    rw [List.length_take]
    omega
  rw [show lineEnd.length = 2 from rfl] at hall
  cases buffer with
  | nil =>
    rw [List.length_nil] at hall
    omega
  | cons b buffer =>
    -- Only the last byte was not searched in vain.
    rw [Bytes.find?_append_of_none hnone (show buffer.length + 2 ≤ _ from Nat.le_refl _)] at hfind
    have hge := (Bytes.find?_add_length_le hfind).1
    rw [List.length_cons] at hall
    omega

theorem line_of_cutLine {text : Bytes} (hstage : r.stage.awaitsLine = true)
    (h : cutLine r.buffer = some (text, rest)) : r.line + rest.length = r.buffer.length := by
  have hline : r.line = text.length + lineEnd.length := by
    rw [line, if_pos hstage, h]
  rw [hline]
  exact length_of_cutLine h

theorem line_eq_zero (h : r.stage.awaitsLine = false) : r.line = 0 := by
  rw [line, h]
  rfl

/-! ### A move of a reader -/

/-- What follows a head has nothing of its body yet, and its length is within the limit. -/
theorem goto_of_afterHead {head : Head} (h : r.afterHead head rest = .again s) :
    ∃ stage, s = r.goto stage rest ∧ stage.taken = 0 ∧ stage.Fits r.maxBody := by
  simp only [afterHead] at h
  split at h
  · cases h
    exact ⟨_, rfl, rfl, Nat.zero_le _⟩
  · split at h
    · cases h
    · split at h
      · cases h
        exact ⟨_, rfl, rfl, Nat.zero_le _⟩
      · split at h
        · cases h
          exact ⟨_, rfl, rfl, Nat.zero_le _⟩
        · split at h
          · cases h
          · split at h
            · cases h
            · next hlength =>
              cases h
              exact ⟨_, rfl, rfl, Nat.le_of_not_lt hlength⟩

/-- A length that is within a limit below the greatest there is has not been cut short. -/
theorem add_le_of_grown {length size : Nat} (hlimit : limit + 1 < Numeral.lengthBound)
    (h : grown length size ≤ limit) : length + size ≤ limit := by
  rw [grown] at h
  omega

/-- The moves to another stage. -/
inductive Goes (r : Reader) : Reader → Prop
  /-- A head is over. -/
  | head {rest : Bytes} {stage : Stage} (awaits : r.stage.awaitsLine = false)
      (shorter : rest.length ≤ r.buffer.length) (taken : stage.taken = 0)
      (fits : stage.Fits r.maxBody) : Goes r (r.goto stage rest)
  /-- A chunk is taken. -/
  | data {head : Head} {body : Array UInt8} {size : Nat}
      (stage : r.stage = .chunkData head body size) (enough : size ≤ r.buffer.length) :
      Goes r (r.goto (.chunkEnd head (body ++ r.buffer.take size)) (r.buffer.drop size))
  /-- A line is at its end. -/
  | line {text rest : Bytes} {stage : Stage} (awaits : r.stage.awaitsLine = true)
      (cut : cutLine r.buffer = some (text, rest)) (taken : stage.taken = r.stage.taken)
      (fits : r.maxBody + 1 < Numeral.lengthBound → r.stage.taken ≤ r.maxBody →
        stage.Fits r.maxBody) : Goes r (r.goto stage rest)

theorem size_append_take (body : Array UInt8) (buffer : Bytes) (size : Nat) :
    (body ++ buffer.take size).size = body.size + (buffer.take size).length := by
  rw [← Array.length_toList, Array.toList_appendList, List.length_append, Array.length_toList]

theorem goes_of_again (h : r.step = .again s) : r.Goes s := by
  -- Only the line of a chunk's size says what is to come; the body is as it was.
  have hline {stage next : Stage} {text rest : Bytes} (hstage : r.stage = stage)
      (hawaits : stage.awaitsLine = true) (hcut : cutLine r.buffer = some (text, rest))
      (htaken : next.taken = stage.taken)
      (hfits : r.maxBody + 1 < Numeral.lengthBound → stage.taken ≤ r.maxBody →
        next.Fits r.maxBody) : r.Goes (r.goto next rest) := by
    subst hstage
    exact .line hawaits hcut htaken hfits
  rw [step] at h
  split at h
  · next hstage =>
    split at h
    · split at h
      · cases h
      · obtain ⟨stage, rfl, htaken, hfits⟩ := goto_of_afterHead h
        refine .head (by rw [hstage]; rfl) ?_ htaken hfits
        rw [List.length_drop]
        omega
    · split at h <;> cases h
  · split at h <;> cases h
  · split at h <;> cases h
  · next head body hstage =>
    split at h
    · cases h
    · next hcut =>
      split at h
      · cases h
      · cases h
        exact hline hstage rfl hcut rfl fun _ hle => hle
      · split at h
        · cases h
        · next hsize =>
          cases h
          exact hline hstage rfl hcut rfl fun hlimit _ =>
            add_le_of_grown hlimit (Nat.le_of_not_lt hsize)
  · next hstage =>
    split at h
    · cases h
    · next hsize =>
      cases h
      exact .data hstage (Nat.le_of_not_lt hsize)
  · next hstage =>
    split at h
    · cases h
    · next hcut =>
      split at h
      · cases h
        exact hline hstage rfl hcut rfl fun _ hle => hle
      · cases h
  · next hstage =>
    split at h
    · cases h
    · next hcut =>
      split at h
      · cases h
      · cases h
        exact hline hstage rfl hcut rfl fun _ hle => hle

theorem taken_le_of_fits {stage : Stage} (h : stage.Fits limit) : stage.taken ≤ limit := by
  cases stage with
  | counted head length => exact Nat.zero_le _
  | chunkData head body size => exact Nat.le_trans (Nat.le_add_right _ _) h
  | _ => exact h

/-- **A move to another stage brings nothing, and takes off the line that was at its end.** -/
theorem Goes.held (h : r.Goes s) : s.held + r.line ≤ r.held := by
  cases h with
  | @head rest stage hawaits hshorter htaken =>
    rw [line_eq_zero hawaits]
    show rest.length + stage.taken + 0 ≤ r.buffer.length + r.stage.taken
    omega
  | @data head body size hstage henough =>
    have htaken : r.stage.taken = body.size := by rw [hstage]; rfl
    have hsize := size_append_take body r.buffer size
    rw [line_eq_zero (by rw [hstage]; rfl)]
    show (r.buffer.drop size).length + (body ++ r.buffer.take size).size + 0 ≤
      r.buffer.length + r.stage.taken
    rw [hsize, List.length_drop, List.length_take]
    omega
  | @line text rest stage hawaits hcut htaken =>
    have hlength := line_of_cutLine hawaits hcut
    show rest.length + stage.taken + r.line ≤ r.buffer.length + r.stage.taken
    omega

/-- What is still to come of a body stays within its limit. -/
theorem Goes.fits (h : r.Goes s) (hlimit : r.maxBody + 1 < Numeral.lengthBound)
    (hfits : r.stage.Fits r.maxBody) : s.stage.Fits r.maxBody := by
  cases h with
  | head _ _ _ hstage => exact hstage
  | @data head body size hstage henough =>
    rw [hstage] at hfits
    show (body ++ r.buffer.take size).size ≤ r.maxBody
    have hsize := size_append_take body r.buffer size
    have hle : body.size + size ≤ r.maxBody := hfits
    rw [hsize, List.length_take]
    omega
  | line _ _ _ hstage => exact hstage hlimit (taken_le_of_fits hfits)

/-! ### What is kept -/

/-- A reader with this limit holds no more than this, but for the line that it is in. -/
structure Within (limit bound : Nat) (r : Reader) : Prop where
  maxBody : r.maxBody = limit
  fits : r.stage.Fits limit
  held : r.held ≤ bound + r.line

/-- **A move preserves it.** -/
theorem Within.again (h : r.Within limit bound) (hlimit : limit + 1 < Numeral.lengthBound)
    (hstep : r.step = .again s) : s.Within limit bound := by
  have hgoes := goes_of_again hstep
  obtain ⟨hmax, hfits, hheld⟩ := h
  subst hmax
  have hnext := hgoes.held
  exact ⟨(keeps_of_again hstep).2, hgoes.fits hlimit hfits, by omega⟩

/-- Where more bytes are wanted, no more are held than a head or a body may have, or the end of a
line has not come. -/
theorem wants_cases (hfits : r.stage.Fits r.maxBody) (h : r.step = .stop (.wants s)) :
    (s.stage.awaitsLine = false ∧ s.stage.Fits r.maxBody ∧ s.held ≤ max maxHead r.maxBody) ∨
      (s = r ∧ r.stage.awaitsLine = true ∧ cutLine r.buffer = none) := by
  rw [step] at h
  split at h
  · split at h
    · split at h
      · cases h
      · simp only [afterHead] at h
        repeat' split at h
        all_goals cases h
    · split at h
      · cases h
      · next hlength =>
        cases h
        refine .inl ⟨rfl, Nat.zero_le _, ?_⟩
        show r.buffer.length + 0 ≤ _
        omega
  · next head length hstage =>
    split at h
    · next hlength =>
      cases h
      rw [hstage] at hfits ⊢
      have hle : length ≤ r.maxBody := hfits
      refine .inl ⟨rfl, hfits, ?_⟩
      rw [held, hstage]
      show r.buffer.length + 0 ≤ _
      omega
    · cases h
  · next head hstage =>
    split at h
    · cases h
    · next hlength =>
      cases h
      rw [hstage] at hfits ⊢
      refine .inl ⟨rfl, hfits, ?_⟩
      rw [held, hstage]
      show r.buffer.length + 0 ≤ _
      omega
  · next hstage =>
    split at h
    · next hcut =>
      cases h
      exact .inr ⟨rfl, by rw [hstage]; rfl, hcut⟩
    · split at h
      · cases h
      · cases h
      · split at h <;> cases h
  · next head body size hstage =>
    split at h
    · next hlength =>
      cases h
      rw [hstage] at hfits ⊢
      have hle : body.size + size ≤ r.maxBody := hfits
      refine .inl ⟨rfl, hfits, ?_⟩
      rw [held, hstage]
      show r.buffer.length + body.size ≤ _
      omega
    · cases h
  · next hstage =>
    split at h
    · next hcut =>
      cases h
      exact .inr ⟨rfl, by rw [hstage]; rfl, hcut⟩
    · split at h <;> cases h
  · next hstage =>
    split at h
    · next hcut =>
      cases h
      exact .inr ⟨rfl, by rw [hstage]; rfl, hcut⟩
    · split at h <;> cases h

/-- **A read preserves it**, if it brings no more than it may. -/
theorem Within.received (h : r.Within limit bound) (hstep : r.step = .stop (.wants s))
    (hbytes : bytes.length ≤ most) (hbound : max maxHead limit + most ≤ bound) :
    (s.received bytes).Within limit bound := by
  obtain ⟨hmax, hfits, hheld⟩ := h
  subst hmax
  have hall : (s.received bytes).held = s.held + bytes.length := by
    show (s.buffer ++ bytes).length + s.stage.taken = s.buffer.length + s.stage.taken + _
    rw [List.length_append]
    omega
  obtain ⟨hawaits, hnext, hless⟩ | ⟨rfl, hawaits, hnone⟩ := wants_cases hfits hstep
  · refine ⟨(keeps_of_stop hstep).2, hnext, ?_⟩
    omega
  · refine ⟨rfl, hfits, ?_⟩
    have htaken := taken_le_of_fits hfits
    -- All that is held, but for the bytes behind the line, is the line and the body.
    have hline : (s.received bytes).buffer.length ≤ (s.received bytes).line + bytes.length := by
      have hstage : (s.received bytes).stage.awaitsLine = true := hawaits
      cases hcut : cutLine (s.received bytes).buffer with
      | none =>
        rw [line, if_pos hstage, hcut]
        exact Nat.le_add_right _ _
      | some cut =>
        have hlength := line_of_cutLine hstage hcut
        have hrest := length_le_of_cutLine_append hnone hcut
        omega
    show (s.received bytes).buffer.length + s.stage.taken ≤ _
    omega

/-- **So does reading on** from there to where more is wanted. -/
theorem Within.advance (h : r.Within limit bound) (hlimit : limit + 1 < Numeral.lengthBound)
    (hwants : r.advance = .wants s) (hbytes : bytes.length ≤ most)
    (hbound : max maxHead limit + most ≤ bound) : (s.received bytes).Within limit bound := by
  fun_induction Reader.advance r with
  | case1 r next hstep ih => exact ih (h.again hlimit hstep) hwants
  | case2 r verdict hstep => exact h.received (hwants ▸ hstep) hbytes hbound

theorem Within.passes (h : r.Within limit bound) (hlimit : limit + 1 < Numeral.lengthBound)
    (hpasses : r.Passes s) : s.Within limit bound := by
  induction hpasses with
  | refl => exact h
  | again hstep _ ih => exact ih (h.again hlimit hstep)

end Reader

end Reply

/-! ### At every moment of an exchange -/

/-- A link and its exchange at some moment of sending a request, when no read brings more than so
many bytes.  The far end may do anything, and any time may pass. -/
inductive Link.Amid (link : Link) (request : Outgoing) (most : Nat) : Link → Exchange → Prop
  | begun {now : Nat} {s : Stream} {x : Exchange} {wake : Option Nat}
      (waits : (link.begun now request s).progress.outcome = .waiting x wake) :
      Amid link request most (link.begun now request s).progress.link x
  | move {now : Nat} {l : Link} {s : Stream} {x y : Exchange} {wake : Option Nat}
      (before : Amid link request most l x) (perRead : s.perRead ≤ most)
      (waits : (x.move now l s).progress.outcome = .waiting y wake) :
      Amid link request most (x.move now l s).progress.link y

namespace Exchange

open Reply (maxHead)

/-- What is so of a link and its exchange: before the reply nothing is read, and then no more is
held than this, but for a line. -/
def Within (link : Link) (bound : Nat) (l : Link) : Exchange → Prop
  | sending _ _ => l.buffer = link.buffer ∧ l.maxBody = link.maxBody
  | receiving method stage => (reader l method stage).Within link.maxBody bound

variable {link l : Link} {x y : Exchange} {request : Outgoing} {most bound : Nat}

/-- **Every operation of an exchange preserves it.** -/
theorem Within.move (h : x.Within link bound l) (hlimit : link.maxBody + 1 < Numeral.lengthBound)
    (hbuffer : link.buffer.length ≤ bound) (hbound : max maxHead link.maxBody + most ≤ bound)
    {now : Nat} {s : Stream} {wake : Option Nat} (hmost : s.perRead ≤ most)
    (hwaits : (x.move now l s).progress.outcome = .waiting y wake) :
    y.Within link bound (x.move now l s).progress.link := by
  have hmoved := moved now l s x
  generalize x.move now l s = m at hmoved hwaits ⊢
  cases hmoved with
  | wrote =>
    cases hwaits
    exact h
  | flushed =>
    cases hwaits
    obtain ⟨hsame, hmax⟩ := h
    refine ⟨hmax, Nat.zero_le _, ?_⟩
    show l.buffer.length + 0 ≤ _
    rw [hsame]
    omega
  | @got method stage r bytes clock t hwants hread =>
    cases hwaits
    have hbytes : bytes.length ≤ most := Nat.le_trans (Stream.length_le_of_read hread) hmost
    have hmax := (Reply.Reader.keeps_of_wants hwants).2
    show (reader { l with buffer := r.buffer ++ bytes } r.method r.stage).Within _ _
    rw [reader_received hmax]
    exact Reply.Reader.Within.advance h hlimit hwants hbytes hbound
  | waitsToWrite =>
    cases hwaits
    exact h
  | @waitsToRead method stage r wake clock t hwants =>
    cases hwaits
    have hmax := (Reply.Reader.keeps_of_wants hwants).2
    have hnone : ([] : Bytes).length ≤ most := Nat.zero_le most
    have hkept := Reply.Reader.Within.advance h hlimit hwants hnone hbound
    have hreader := reader_received hmax []
    rw [List.append_nil] at hreader
    show (reader { l with buffer := r.buffer } r.method r.stage).Within _ _
    rw [hreader]
    exact hkept
  | completed => cases hwaits
  | ended => cases hwaits
  | failed => cases hwaits

/-- **So does a whole exchange**, as far as it has come. -/
theorem within_of_amid (h : link.Amid request most l x)
    (hlimit : link.maxBody + 1 < Numeral.lengthBound) :
    x.Within link (max link.buffer.length (max maxHead link.maxBody + most)) l := by
  induction h with
  | @begun now s x wake hwaits =>
    rw [Link.begun, Link.begin] at hwaits ⊢
    cases hencode : request.encode? link.viaProxy with
    | error error =>
      rw [hencode] at hwaits
      cases hwaits
    | ok bytes =>
      rw [hencode] at hwaits
      cases hwaits
      exact ⟨rfl, rfl⟩
  | move before hmost hwaits ih =>
    exact ih.move hlimit (Nat.le_max_left _ _) (Nat.le_max_right _ _) hmost hwaits

end Exchange

namespace Link

open Exchange (reader)

variable {link l : Link} {request : Outgoing} {method : Method} {most : Nat}

/-- **How much a link holds.**  While a request is written, the link holds what it held before.
While the reply is read, the bytes at hand and the chunks taken are at no moment more than what was
held before, or else a head or a body as long as it may be and what one read brings; but for the
line between chunks that the reader is in, if it is in one. -/
theorem held_le (hlimit : link.maxBody + 1 < Numeral.lengthBound) :
    (∀ l method rest, link.Amid request most l (.sending method rest) → l.buffer = link.buffer) ∧
    ∀ l method stage r, link.Amid request most l (.receiving method stage) →
      (reader l method stage).Passes r →
      r.held ≤ max link.buffer.length (max Reply.maxHead link.maxBody + most) + r.line := by
  constructor
  · intro l method rest hamid
    exact (Exchange.within_of_amid hamid hlimit).1
  · intro l method stage r hamid hpasses
    have hwithin : (reader l method stage).Within _ _ := Exchange.within_of_amid hamid hlimit
    exact (hwithin.passes hlimit hpasses).held

/-! ### A line without end -/

/-- A request that can be written is written to a far end that takes it; then the reply is waited
for. -/
theorem amid_receiving {bytes : Bytes} (hencode : request.encode? link.viaProxy = .ok bytes)
    (hmost : 0 < most) :
    link.Amid request most { link with reusable := false }
      (.receiving request.method (.head 0)) := by
  let s : Stream := { perRead := most, perRead_pos := hmost }
  have hbegun : (link.begun 0 request s).progress =
      ⟨.waiting (.sending request.method bytes) none, 0, { link with reusable := false }, s⟩ := by
    rw [begun, begin, hencode]
    rfl
  have hbefore := @Amid.begun link request most 0 s (.sending request.method bytes) none
    (by rw [hbegun])
  rw [hbegun] at hbefore
  have hwritten : link.Amid request most { link with reusable := false }
      (.sending request.method []) := by
    cases bytes with
    | nil => exact hbefore
    | cons b rest =>
      have hmove : ((Exchange.sending request.method (b :: rest)).move 0
          { link with reusable := false } s).progress.outcome =
            .waiting (.sending request.method (rest.drop rest.length)) none := rfl
      rw [List.drop_length] at hmove
      exact hbefore.move (Nat.le_refl most) hmove
  exact @Amid.move link request most 0 _ s _ _ none hwritten (Nat.le_refl most) rfl

/-- Whatever bytes come next, they may come. -/
theorem Amid.got {stage : Reply.Stage} {r : Reply.Reader} {bytes : Bytes}
    (h : link.Amid request most l (.receiving method stage))
    (hwants : (reader l method stage).advance = .wants r) (hne : bytes ≠ [])
    (hlength : bytes.length ≤ most) :
    link.Amid request most { l with buffer := r.buffer ++ bytes }
      (.receiving r.method r.stage) := by
  have hpos : 0 < most := Nat.lt_of_lt_of_le (List.length_pos_iff.2 hne) hlength
  let s : Stream := { reads := [.data bytes], perRead := most, perRead_pos := hpos }
  have hread : s.read false 0 s.perRead = (.data bytes, 0, { s with reads := [] }) :=
    s.read_piece false 0 most rfl hne (Nat.le_min.2 ⟨hlength, hlength⟩)
  have hadvance : Reply.Reader.advance { method, maxBody := l.maxBody, stage, buffer := l.buffer } =
      .wants r := hwants
  have hmove : ((Exchange.receiving method stage).move 0 l s).progress =
      ⟨.waiting (.receiving r.method r.stage) none, 0, { l with buffer := r.buffer ++ bytes },
        { s with reads := [] }⟩ := by
    simp only [Exchange.move, hadvance, hread]
  have hnext := @Amid.move link request most 0 l s _ _ none h (Nat.le_refl most) (by rw [hmove])
  rw [hmove] at hnext
  exact hnext

/-- A size that goes on and on. -/
def zeros (count : Nat) : Bytes := List.replicate count 0x30

theorem cutLine_zeros (count : Nat) : Reply.Reader.cutLine (zeros count) = none := by
  have hplain : ∀ b ∈ zeros count, b ≠ 0x0D := by
    intro b hb
    rw [List.eq_of_mem_replicate hb]
    decide
  have hfind := @Reply.find?_skip 0x0D [0x0A] (zeros count) hplain 0 []
  rw [List.append_nil] at hfind
  rw [Reply.Reader.cutLine, Reply.lineEnd, hfind]
  rfl

/-- A link on which bodies of eight bytes are taken at most. -/
def smallLink : Link :=
  { id := 0, destination := ⟨"http", "example.com", 80⟩, address := ⟨.ipv4 0, 80⟩, maxBody := 8 }

def pageRequest : Outgoing :=
  { url := { scheme := "http", host := some (.name "example.com") } }

/-- The request for a page, written out. -/
theorem encode_pageRequest : pageRequest.encode? smallLink.viaProxy =
    .ok (Utf8.encode (pageRequest.headText false "example.com") ++ []) := rfl

/-- The link after so many zeros of a chunk's size. -/
def zerosLink (count : Nat) : Link := { smallLink with reusable := false, buffer := zeros count }

/-- A reader that has got so many zeros of a chunk's size wants more. -/
theorem advance_zeros (count : Nat) :
    let r := reader (zerosLink count) .get (.chunkSize chunkedReply.head #[])
    r.advance = .wants r := by
  intro r
  have hcut : Reply.Reader.cutLine r.buffer = none := cutLine_zeros count
  apply Reply.Reader.advance_of_stop
  rw [Reply.Reader.step]
  show (match Reply.Reader.cutLine r.buffer with | none => _ | some (line, rest) => _) = _
  rw [hcut]

/-- **A chunk's size may come without an end**, and all of it is kept. -/
theorem amid_zeros (count : Nat) :
    smallLink.Amid pageRequest usualPerRead (zerosLink (count + 1))
      (.receiving .get (.chunkSize chunkedReply.head #[])) := by
  induction count with
  | zero =>
    have hstart := amid_receiving encode_pageRequest usualPerRead_pos
    have hempty : (reader { smallLink with reusable := false } .get (.head 0)).advance =
        .wants (reader { smallLink with reusable := false } .get (.head 0)) :=
      Reply.Reader.advance_of_stop rfl
    have hne : chunkedReply.head.bytes ≠ [] := by decide
    have hlength : chunkedReply.head.bytes.length ≤ usualPerRead := by decide
    have hhead := hstart.got hempty hne hlength
    have hsizes : (Reply.Reader.start .get 8 (chunkedReply.head.bytes ++ [])).advance =
        .wants (reader (zerosLink 0) .get (.chunkSize chunkedReply.head #[])) := by
      have hfinal : chunkedReply.head.isInterim = false := by decide
      have hbody : ¬Reply.Bodiless .get chunkedReply.head := by simp [Reply.Bodiless, chunkedReply]
      have hchunked : chunkedReply.head.NamesChunked := ⟨"Chunked", by decide, by decide⟩
      have hstep := Reply.Reader.step_start chunkedReply.head_legible .get 8 []
      rw [Reply.Reader.afterHead_of_chunked hfinal hbody hchunked] at hstep
      rw [Reply.Reader.advance_of_again hstep]
      exact advance_zeros 0
    rw [List.append_nil] at hsizes
    exact hhead.got hsizes (List.cons_ne_nil 0x30 []) (show 1 ≤ usualPerRead by decide)
  | succ count ih =>
    have hnext := ih.got (advance_zeros (count + 1)) (List.cons_ne_nil 0x30 [])
      (show 1 ≤ usualPerRead by decide)
    have hzeros : zeros (count + 1) ++ [0x30] = zeros (count + 1 + 1) :=
      List.replicate_succ'.symm
    rw [zerosLink, ← hzeros]
    exact hnext

/-- So many zeros and one more are held, and all of them are the line. -/
theorem held_zeros (count : Nat) :
    let r := reader (zerosLink (count + 1)) .get (.chunkSize chunkedReply.head #[])
    r.held = count + 1 ∧ r.line = count + 1 := by
  intro r
  have hlength : r.buffer.length = count + 1 := List.length_replicate
  have hstage : r.stage.awaitsLine = true := rfl
  have hcut : Reply.Reader.cutLine r.buffer = none := cutLine_zeros (count + 1)
  refine ⟨hlength, ?_⟩
  rw [Reply.Reader.line, if_pos hstage, hcut]
  exact hlength

/-- However many zeros have come, all but these is bounded. -/
theorem held_le_zeros :
    let r := reader (zerosLink 1000000) .get (.chunkSize chunkedReply.head #[])
    r.held = 1000000 ∧ r.held ≤ max 0 (max Reply.maxHead 8 + usualPerRead) + r.line := by
  intro r
  have hlimit : smallLink.maxBody + 1 < Numeral.lengthBound := by decide
  exact ⟨(held_zeros 999999).1,
    (held_le hlimit).2 _ .get _ r (amid_zeros 999999) (.refl r)⟩

/-- **No bound is one for the line**, whatever the limit on a body is and however little one read
brings. -/
theorem held_fails :
    ¬ ∀ maxBody most, ∃ bound, ∀ (link : Link) request l method stage r,
      link.maxBody = maxBody → link.buffer = [] →
      link.Amid request most l (.receiving method stage) → (reader l method stage).Passes r →
      r.held ≤ bound := by
  intro hbounded
  obtain ⟨bound, hbound⟩ := hbounded 8 usualPerRead
  have hle := hbound smallLink pageRequest _ _ _ _ rfl rfl (amid_zeros bound) (.refl _)
  rw [(held_zeros bound).1] at hle
  omega

end Link

end HttpExchange
