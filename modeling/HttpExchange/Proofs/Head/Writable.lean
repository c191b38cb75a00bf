import Mathlib.Tactic.MkIffOfInductiveProp
import HttpExchange.Proofs.Head.Form
import HttpExchange.Proofs.Text.Blank

/-!
# Fields that can be written

A field can be written on one line of a head if its name is a token and its value has no control
character but the tab and no padding at its ends (`Header.Writable`).  What holds of the characters
of a text holds of its bytes.
-/

namespace HttpExchange

/-- A control character. -/
def IsControl (c : Char) : Prop := c.toNat < 0x20 ∨ c.toNat = 0x7F

instance (c : Char) : Decidable (IsControl c) := inferInstanceAs (Decidable (_ ∨ _))

/-- A space or a tab. -/
def IsPad (c : Char) : Prop := c = ' ' ∨ c = '\t'

instance (c : Char) : Decidable (IsPad c) := inferInstanceAs (Decidable (_ ∨ _))

/-- A field that can be written on one line: its name is a token, and its value has no control
character but the tab, and no padding at its ends. -/
@[mk_iff]
structure Header.Writable (h : Header) : Prop where
  name_ne_nil : Utf8.encode h.name ≠ []
  name_token : ∀ b ∈ Utf8.encode h.name, Head.isTokenByte b = true
  value_plain : ∀ c ∈ h.value.toList, IsControl c → c = '\t'
  value_head : ∀ c ∈ h.value.toList.head?, ¬IsPad c
  value_last : ∀ c ∈ h.value.toList.getLast?, ¬IsPad c

-- The clauses are decided over the text and not, as `Fintype` would have it, over all characters.
instance (h : Header) : Decidable h.Writable :=
  have : Decidable (∀ b ∈ Utf8.encode h.name, Head.isTokenByte b = true) :=
    List.decidableBAll _ _
  have : Decidable (∀ c ∈ h.value.toList, IsControl c → c = '\t') := List.decidableBAll _ _
  have : Decidable (∀ c ∈ h.value.toList.head?, ¬IsPad c) := Option.decidableForallMem _
  have : Decidable (∀ c ∈ h.value.toList.getLast?, ¬IsPad c) := Option.decidableForallMem _
  decidable_of_iff _ (Header.writable_iff h).symm

namespace Head

/-- The control bytes are the control characters of ASCII. -/
theorem isControl_iff {b : UInt8} : isControl b = true ↔ b.toNat < 0x20 ∨ b.toNat = 0x7F := by
  rw [isControl, Bool.or_eq_true, decide_eq_true_eq, beq_iff_eq, UInt8.lt_iff_toNat_lt,
    ← UInt8.toNat_inj]
  rfl

theorem toNat_le_of_isControl {b : UInt8} (h : isControl b = true) : b.toNat ≤ 0x7F := by
  rcases isControl_iff.1 h with h | h <;> omega

/-- The control bytes of a text are its control characters. -/
theorem exists_isControl_of_mem_encode {s : String} {b : UInt8} (hb : b ∈ Utf8.encode s)
    (h : isControl b = true) : ∃ c ∈ s.toList, c.toNat = b.toNat ∧ IsControl c := by
  obtain ⟨c, hc, heq⟩ := (Utf8.mem_encode_iff (toNat_le_of_isControl h)).1 hb
  refine ⟨c, hc, heq, ?_⟩
  rw [IsControl, heq]
  exact isControl_iff.1 h

theorem isTargetByte_of_mem_encode {s : String} (h : ∀ c ∈ s.toList, c ≠ ' ' ∧ ¬IsControl c) :
    ∀ b ∈ Utf8.encode s, isTargetByte b = true := by
  intro b hb
  have hspace : b ≠ 0x20 := by
    rintro rfl
    obtain ⟨c, hc, heq⟩ := (Utf8.mem_encode_iff (by decide)).1 hb
    exact (h c hc).1 (Char.toNat_inj.1 heq)
  have hcontrol : isControl b = false := by
    by_contra hcontrol
    rw [Bool.not_eq_false] at hcontrol
    obtain ⟨c, hc, -, hcontrol⟩ := exists_isControl_of_mem_encode hb hcontrol
    exact (h c hc).2 hcontrol
  simp [isTargetByte, hspace, hcontrol]

theorem isValueByte_of_mem_encode {s : String} (h : ∀ c ∈ s.toList, IsControl c → c = '\t') :
    ∀ b ∈ Utf8.encode s, isValueByte b = true := by
  intro b hb
  cases hcontrol : isControl b with
  | false => rw [isValueByte, hcontrol, Bool.not_false, Bool.or_true]
  | true =>
    obtain ⟨c, hc, heq, hc'⟩ := exists_isControl_of_mem_encode hb hcontrol
    obtain rfl := h c hc hc'
    have htab : b = 0x09 := UInt8.toNat_inj.1 heq.symm
    rw [isValueByte, htab]
    rfl

theorem isPad_of_isPadding {b : UInt8} {c : Char} (hb : Blank.isPadding b = true)
    (h : c.toNat = b.toNat) : IsPad c := by
  rw [Blank.isPadding, Bool.or_eq_true, beq_iff_eq, beq_iff_eq] at hb
  rcases hb with rfl | rfl
  · exact .inl (Char.toNat_inj.1 h)
  · exact .inr (Char.toNat_inj.1 h)

/-- A text without padding at its ends has no padding bytes at its ends. -/
theorem stripEnds_encode {s : String} (hhead : ∀ c ∈ s.toList.head?, ¬IsPad c)
    (hlast : ∀ c ∈ s.toList.getLast?, ¬IsPad c) :
    Blank.stripEnds Blank.isPadding (Utf8.encode s) = Utf8.encode s := by
  have hle : ∀ b, Blank.isPadding b = true → b.toNat ≤ 0x7F := by
    intro b hb
    rw [Blank.isPadding, Bool.or_eq_true, beq_iff_eq, beq_iff_eq] at hb
    rcases hb with rfl | rfl <;> decide
  apply Blank.stripEnds_eq_self
  · intro b hb
    by_contra hpad
    rw [Bool.not_eq_false] at hpad
    obtain ⟨c, hc, heq⟩ := Utf8.head?_of_head?_encode (hle b hpad) hb
    exact hhead c hc (isPad_of_isPadding hpad heq)
  · intro b hb
    by_contra hpad
    rw [Bool.not_eq_false] at hpad
    obtain ⟨c, hc, heq⟩ := Utf8.getLast?_of_getLast?_encode (hle b hpad) hb
    exact hlast c hc (isPad_of_isPadding hpad heq)

end Head

end HttpExchange
