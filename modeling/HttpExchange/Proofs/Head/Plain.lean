import HttpExchange.Proofs.Head.Accepted
import HttpExchange.Proofs.Head.Resume
import HttpExchange.Proofs.Head.StartLine
import HttpExchange.Proofs.Head.Writable
import HttpExchange.Proofs.Text.Decode

/-!
# What is read can be written again

Whatever bytes a reader takes, in whatever pieces, and whether or not it goes on after a refusal: the
texts it has put into the draft are such as can stand in a head.

* `Draft.Plain` — these texts: a target without spaces and control characters, a version or none yet,
  and fields that can be written;
* `Reader.Plain` — the draft is plain, and what the token holds will leave it so;
* `accept_plain` — one byte preserves it;
* `feedOn` / `plain_feedOn` — hence any number of pieces do.
-/

namespace HttpExchange

/-! ### Values -/

/-- A text that can be the value of a field: no control character but the tab, and no padding at its
ends. -/
structure IsFieldValue (s : String) : Prop where
  plain : ∀ c ∈ s.toList, IsControl c → c = '\t'
  head : ∀ c ∈ s.toList.head?, ¬IsPad c
  last : ∀ c ∈ s.toList.getLast?, ¬IsPad c

theorem isFieldValue_empty : IsFieldValue "" := ⟨by simp, by simp, by simp⟩

theorem Header.Writable.value {h : Header} (hw : h.Writable) : IsFieldValue h.value :=
  ⟨hw.value_plain, hw.value_head, hw.value_last⟩

theorem Header.Writable.withValue {h : Header} (hw : h.Writable) {value : String}
    (hvalue : IsFieldValue value) : (Header.mk h.name value).Writable :=
  ⟨hw.name_ne_nil, hw.name_token, hvalue.plain, hvalue.head, hvalue.last⟩

/-- Two values with a space between them are one. -/
theorem IsFieldValue.joined {s t : String} (hs : IsFieldValue s) (ht : IsFieldValue t)
    (hs_ne : s ≠ "") (ht_ne : t ≠ "") : IsFieldValue (s ++ " " ++ t) := by
  have hs_list : s.toList ≠ [] := fun h => hs_ne (String.toList_eq_nil_iff.1 h)
  have ht_list : t.toList ≠ [] := fun h => ht_ne (String.toList_eq_nil_iff.1 h)
  have hlist : (s ++ " " ++ t).toList = s.toList ++ (' ' :: t.toList) := by
    rw [String.toList_append, String.toList_append, List.append_assoc]
    rfl
  refine ⟨?_, ?_, ?_⟩
  · intro c hc hcontrol
    rw [hlist, List.mem_append, List.mem_cons] at hc
    rcases hc with hc | rfl | hc
    · exact hs.plain c hc hcontrol
    · exact absurd hcontrol (by decide)
    · exact ht.plain c hc hcontrol
  · intro c hc
    rw [hlist, List.head?_append_of_ne_nil _ hs_list] at hc
    exact hs.head c hc
  · intro c hc
    rw [hlist, List.getLast?_append_of_ne_nil _ (List.cons_ne_nil _ _),
      List.getLast?_cons_of_ne_nil ht_list] at hc
    exact ht.last c hc

/-- A value that goes on over several lines is a value. -/
theorem IsFieldValue.folded {value line : String} (hvalue : IsFieldValue value)
    (hline : IsFieldValue line) : IsFieldValue (Head.Reader.folded value line) := by
  rw [Head.Reader.folded]
  split
  · exact hvalue
  · next hline_ne =>
    split
    · exact hline
    · next hvalue_ne =>
      rw [String.isEmpty_iff] at hline_ne hvalue_ne
      exact hvalue.joined hline hvalue_ne hline_ne

namespace Head

/-! ### Bytes that are decoded -/

theorem toNat_le_of_isControl_char {c : Char} (h : IsControl c) : c.toNat ≤ 0x7F := by
  rcases h with h | h <;> omega

/-- The control characters of a text are among its bytes. -/
theorem exists_isControl_of_mem_decode {bytes : Bytes} {c : Char}
    (hc : c ∈ (Utf8.decode bytes).toList) (h : IsControl c) :
    ∃ b ∈ bytes, isControl b = true ∧ b.toNat = c.toNat := by
  obtain ⟨b, hb, heq⟩ := Utf8.mem_of_mem_decode hc (toNat_le_of_isControl_char h)
  refine ⟨b, hb, isControl_iff.2 ?_, heq⟩
  rw [heq]
  exact h

theorem target_of_decode {bytes : Bytes} (h : ∀ b ∈ bytes, isTargetByte b = true) :
    ∀ c ∈ (Utf8.decode bytes).toList, c ≠ ' ' ∧ ¬IsControl c := by
  intro c hc
  constructor
  · rintro rfl
    obtain ⟨b, hb, heq⟩ := Utf8.mem_of_mem_decode hc (by decide)
    obtain rfl : b = 0x20 := UInt8.toNat_inj.1 heq
    exact absurd (h _ hb) (by decide)
  · intro hcontrol
    obtain ⟨b, hb, hb_control, -⟩ := exists_isControl_of_mem_decode hc hcontrol
    have htarget := h b hb
    rw [isTargetByte, hb_control, Bool.not_true, Bool.and_false] at htarget
    cases htarget

theorem isPadding_of_isPad {c : Char} (h : IsPad c) {b : UInt8} (heq : b.toNat = c.toNat) :
    Blank.isPadding b = true := by
  rcases h with rfl | rfl
  · obtain rfl : b = 0x20 := UInt8.toNat_inj.1 heq
    decide
  · obtain rfl : b = 0x09 := UInt8.toNat_inj.1 heq
    decide

theorem toNat_le_of_isPad {c : Char} (h : IsPad c) : c.toNat ≤ 0x7F := by
  rcases h with rfl | rfl <;> decide

theorem isFieldValue_decode {bytes : Bytes} (hall : ∀ b ∈ bytes, isValueByte b = true)
    (hhead : ∀ b ∈ bytes.head?, Blank.isPadding b = false)
    (hlast : ∀ b ∈ bytes.getLast?, Blank.isPadding b = false) :
    IsFieldValue (Utf8.decode bytes) := by
  refine ⟨?_, ?_, ?_⟩
  · intro c hc hcontrol
    obtain ⟨b, hb, hb_control, heq⟩ := exists_isControl_of_mem_decode hc hcontrol
    have hvalue := hall b hb
    rw [isValueByte, hb_control, Bool.not_true, Bool.or_false, beq_iff_eq] at hvalue
    rw [hvalue] at heq
    exact Char.toNat_inj.1 heq.symm
  · intro c hc hpad
    obtain ⟨b, hb, heq⟩ := Utf8.head?_of_head?_decode hc (toNat_le_of_isPad hpad)
    have hnot := hhead b hb
    rw [isPadding_of_isPad hpad heq] at hnot
    cases hnot
  · intro c hc hpad
    obtain ⟨b, hb, heq⟩ := Utf8.getLast?_of_getLast?_decode hc (toNat_le_of_isPad hpad)
    have hnot := hlast b hb
    rw [isPadding_of_isPad hpad heq] at hnot
    cases hnot

/-! ### The invariant -/

/-- A draft whose texts can stand in a head: neither a space nor a control character in the target,
a version or none yet, and fields that can be written. -/
structure Draft.Plain (d : Draft) : Prop where
  target : ∀ c ∈ d.target.toList, c ≠ ' ' ∧ ¬IsControl c
  version : d.version = "" ∨ ∃ major minor, isDigitByte major = true ∧ isDigitByte minor = true ∧
    d.version = Utf8.ascii (versionBytes major minor)
  fields : ∀ h ∈ d.fields, h.Writable

/-- A new draft has no texts. -/
theorem plain_empty : Draft.Plain {} :=
  ⟨by simp, .inl rfl, fun _ h => absurd h List.not_mem_nil⟩

namespace Reader

/-- What the phase says of the token beyond the class of its bytes: a name has some, and a value does
not begin with padding. -/
def Begun (r : Reader) : Prop :=
  match r.phase with
  | .fieldName => r.token ≠ []
  | .value => ∃ first ∈ r.token.getLast?, Blank.isPadding first = false
  | _ => True

/-- The texts of the draft can stand in a head, and so will those that come of the token. -/
structure Plain (r : Reader) (d : Draft) : Prop where
  gathers : r.Gathers
  begun : r.Begun
  draft : d.Plain

theorem plain_ofLimit (limit : Nat) : (ofLimit limit).Plain {} :=
  ⟨gathers_ofLimit limit, trivial, plain_empty⟩

variable {r s : Reader} {d e : Draft} {b : UInt8}

theorem Plain.counted (h : r.Plain d) : r.counted.Plain d := ⟨h.gathers, h.begun, h.draft⟩

/-! ### One byte -/

/-- The line of a value, its padding at the end dropped, is a value. -/
theorem isFieldValue_line {token : List UInt8} (hall : ∀ b ∈ token, isValueByte b = true)
    (hfirst : ∀ b ∈ token.getLast?, Blank.isPadding b = false) :
    IsFieldValue (Utf8.decode (token.dropWhile Blank.isPadding).reverse) := by
  apply isFieldValue_decode
  · intro b hb
    exact hall b (List.dropWhile_subset _ (List.mem_reverse.1 hb))
  · intro b hb
    rw [List.head?_reverse] at hb
    obtain ⟨front, hfront⟩ := List.dropWhile_suffix (l := token) Blank.isPadding
    refine hfirst b ?_
    rw [← hfront, List.getLast?_append_of_ne_nil]
    · exact hb
    · rintro hnil
      rw [hnil] at hb
      cases hb
  · intro b hb
    rw [List.getLast?_reverse] at hb
    have hhead := List.head?_dropWhile_not Blank.isPadding token
    rw [hb] at hhead
    simpa using hhead

/-- In a value, its first byte is none of padding; before it there is no byte yet. -/
theorem Plain.first_not_padding (h : r.Plain d)
    (hphase : r.phase = .valueStart ∨ r.phase = .value) :
    ∀ b ∈ r.token.getLast?, Blank.isPadding b = false := by
  rcases hphase with hphase | hphase
  · rw [h.gathers.token_eq_nil hphase fun _ => rfl]
    exact fun b hb => by cases hb
  · have hbegun := h.begun
    rw [Begun, hphase] at hbegun
    obtain ⟨first, hlast, hfirst⟩ := hbegun
    intro b hb
    obtain rfl := Option.mem_unique hlast hb
    exact hfirst

theorem Plain.mem_value (h : r.Plain d) (hphase : r.phase = .valueStart ∨ r.phase = .value) :
    ∀ b ∈ r.token, isValueByte b = true := by
  intro b hb
  have hadmitted := h.gathers b hb
  rcases hphase with hphase | hphase
  · rw [hphase] at hadmitted
    cases hadmitted
  · rw [hphase] at hadmitted
    exact hadmitted

/-- What a value has become at the end of a line is a value. -/
theorem Plain.endedValue (h : r.Plain d) (hphase : r.phase = .valueStart ∨ r.phase = .value)
    {value : String} (hvalue : IsFieldValue value) : IsFieldValue (r.endedValue value) := by
  have hline : IsFieldValue r.lineText :=
    isFieldValue_line (h.mem_value hphase) (h.first_not_padding hphase)
  rw [Reader.endedValue]
  split
  · exact hvalue.folded hline
  · exact hline

/-- A name that has been gathered, with no value yet, can be written. -/
theorem Plain.named (h : r.Plain d) (hphase : r.phase = .fieldName) :
    (Header.mk r.tokenText "").Writable := by
  have hne := h.begun
  rw [Begun, hphase] at hne
  have htoken : ∀ b ∈ r.token.reverse, isTokenByte b = true := by
    intro b hb
    have hadmitted := h.gathers b (List.mem_reverse.1 hb)
    rw [hphase] at hadmitted
    exact hadmitted
  have hascii : ∀ b ∈ r.token.reverse, b.toNat ≤ 0x7F := fun b hb =>
    toNat_le_of_isTokenByte (htoken b hb)
  have hbytes : Utf8.encode r.tokenText = r.token.reverse := by
    rw [tokenText, Utf8.decode_eq_ascii hascii, Utf8.encode_ascii hascii]
  refine ⟨?_, ?_, isFieldValue_empty.plain, isFieldValue_empty.head, isFieldValue_empty.last⟩
  · rw [hbytes]
    exact fun hnil => hne (List.reverse_eq_nil_iff.1 hnil)
  · rw [hbytes]
    exact htoken

/-- A token that goes on is still begun as it was. -/
theorem Begun.push (h : r.Begun) (b : UInt8) : (r.push b).Begun := by
  obtain ⟨phase, token, folding, seen, limit⟩ := r
  cases phase with
  | fieldName => exact List.cons_ne_nil b token
  | value =>
    obtain ⟨first, hlast, hfirst⟩ := h
    have hne : token ≠ [] := fun hnil => by
      rw [hnil] at hlast
      cases hlast
    exact ⟨first, (List.getLast?_cons_of_ne_nil hne).symm ▸ hlast, hfirst⟩
  | _ => trivial

/-- **One byte keeps the draft plain**, and the bytes of the token of their class. -/
theorem accept_plain (h : r.Plain d) (haccept : r.accept d b = .ok (s, e)) : s.Plain e := by
  have hgathers := (accepts haccept).gathers h.gathers
  obtain ⟨-, hbegun, hd⟩ := id h
  cases accepts haccept with
  | skipped => exact h
  | methodBegun => exact ⟨hgathers, trivial, hd⟩
  | nameBegun => exact ⟨hgathers, List.cons_ne_nil _ _, hd⟩
  | valueBegun hphase hpadding =>
    refine ⟨hgathers, ⟨b, ?_, hpadding⟩, hd⟩
    show b ∈ (b :: r.token).getLast?
    rw [h.gathers.token_eq_nil hphase fun _ => rfl]
    rfl
  | gathered => exact ⟨hgathers, hbegun.push b, hd⟩
  | methodEnded => exact ⟨hgathers, trivial, hd.target, hd.version, hd.fields⟩
  | targetEnded hphase =>
    refine ⟨hgathers, trivial, target_of_decode fun b hb => ?_, hd.version, hd.fields⟩
    have hadmitted := h.gathers b (List.mem_reverse.1 hb)
    rw [hphase] at hadmitted
    exact hadmitted
  | versionEnded _ _ hform =>
    obtain ⟨major, minor, hmajor, hminor, htoken⟩ := (isHttpVersion_iff _).1 hform
    refine ⟨hgathers, ?_, hd.target, .inr ⟨major, minor, hmajor, hminor, ?_⟩, hd.fields⟩
    · by_cases hcr : b = cr <;> simp only [Begun, take, hcr, if_true, if_false]
    · rw [tokenText, htoken]
      exact Utf8.decode_eq_ascii (toNat_le_of_mem_versionBytes hmajor hminor)
  | nameEnded hphase =>
    exact ⟨hgathers, trivial, hd.target, hd.version,
      List.forall_mem_cons.2 ⟨h.named hphase, hd.fields⟩⟩
  | @valueEnded field older hphase _ hfields =>
    have hall := hd.fields
    rw [hfields] at hall
    obtain ⟨hfield, holder⟩ := List.forall_mem_cons.1 hall
    refine ⟨hgathers, ?_, hd.target, hd.version, List.forall_mem_cons.2 ⟨?_, holder⟩⟩
    · by_cases hcr : b = cr <;> simp only [Begun, take, hcr, if_true, if_false]
    · exact hfield.withValue (h.endedValue hphase hfield.value)
  | continued | lineBegun | closed | headEnded => exact ⟨hgathers, trivial, hd⟩

/-! ### Any bytes -/

theorem feedFrom_plain (h : r.Plain d) (consumed : Nat) (bytes : Bytes) :
    (r.feedFrom d consumed bytes).reader.Plain (r.feedFrom d consumed bytes).draft := by
  induction bytes generalizing r d consumed with
  | nil => exact h
  | cons b rest ih =>
    rw [feedFrom_cons]
    split
    · exact h.counted
    · split
      · exact h.counted
      · next s e haccept =>
        have hnext := accept_plain h.counted haccept
        split
        · exact hnext
        · exact ih hnext _

theorem feed_plain (h : r.Plain d) (bytes : Bytes) :
    (r.feed d bytes).reader.Plain (r.feed d bytes).draft := by
  rw [feed]
  split
  · exact h
  · exact feedFrom_plain h 0 bytes

/-- Takes pieces one after another, whatever each of them comes to: feeding goes on after a refusal,
and after the head has ended. -/
def feedOn (r : Reader) (d : Draft) : List Bytes → Reader × Draft
  | [] => (r, d)
  | piece :: rest =>
    let p := r.feed d piece
    p.reader.feedOn p.draft rest

/-- **Any number of pieces keeps the draft plain.** -/
theorem plain_feedOn (h : r.Plain d) (pieces : List Bytes) :
    (r.feedOn d pieces).1.Plain (r.feedOn d pieces).2 := by
  induction pieces generalizing r d with
  | nil => exact h
  | cons piece rest ih => exact ih (feed_plain h piece)

end Reader

end Head

end HttpExchange
