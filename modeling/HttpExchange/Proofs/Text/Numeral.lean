import Mathlib.Data.Char
import Mathlib.Tactic.IntervalCases
import HttpExchange.Text.Numeral

/-!
# Numerals and the numbers they denote

Reading a numeral digit by digit gives the number that its positions denote:

* `digits?_ten_eq_some_iff` — a non-empty run of decimal digits is read as the number it denotes,
  and nothing else is read;
* `digits?_decimal` — a number that is written out is read back;
* `Hexadecimal` / `digits?_of_hexadecimal` — the same for base sixteen, whose letters may have
  either case.
-/

namespace HttpExchange.Numeral

/-! ### Digits -/

theorem digitValue?_eq (base : Nat) (c : Char) :
    digitValue? base c =
      (if 48 ≤ c.toNat ∧ c.toNat ≤ 57 then some (c.toNat - 48)
       else if 97 ≤ c.toNat ∧ c.toNat ≤ 102 then some (c.toNat - 87)
       else if 65 ≤ c.toNat ∧ c.toNat ≤ 70 then some (c.toNat - 55)
       else none).filter (· < base) := by
  simp only [digitValue?, Char.le_def, UInt32.le_iff_toNat_le, Bool.and_eq_true, decide_eq_true_eq]
  rfl

theorem isDigit_iff (c : Char) : c.isDigit = true ↔ 48 ≤ c.toNat ∧ c.toNat ≤ 57 :=
  Char.isDigit_iff_toNat

theorem digitValue?_ten (c : Char) :
    digitValue? 10 c = if c.isDigit then some (c.toNat - 48) else none := by
  rw [digitValue?_eq]
  simp only [isDigit_iff]
  split
  · rw [Option.filter_some, if_pos (by simp; omega)]
  -- a letter stands for ten at least
  · split
    · rw [Option.filter_some, if_neg (by simp; omega)]
    · split
      · rw [Option.filter_some, if_neg (by simp; omega)]
      · rfl

/-! ### Decimal numerals -/

theorem readOnto_ten_eq_some_iff (cs : List Char) (value n : Nat) :
    readOnto 10 value cs = some n ↔
      (∀ c ∈ cs, c.isDigit = true) ∧ Nat.ofDigitChars 10 cs value = n := by
  induction cs generalizing value with
  | nil => simp [readOnto]
  | cons c rest ih =>
    rw [readOnto, digitValue?_ten]
    by_cases hc : c.isDigit
    · simp only [hc, if_true, ih, List.forall_mem_cons, true_and, Nat.ofDigitChars_cons,
        Nat.mul_comm value 10]
      rfl
    · simp [hc]

/-- **Only digits are read.**  A text is read as a decimal number exactly when it is a non-empty run
of digits, and then as the number these denote. -/
theorem digits?_ten_eq_some_iff (cs : List Char) (n : Nat) :
    digits? 10 cs = some n ↔
      cs ≠ [] ∧ (∀ c ∈ cs, c.isDigit = true) ∧ Nat.ofDigitChars 10 cs 0 = n := by
  cases cs with
  | nil => simp [digits?]
  | cons c rest => simp [digits?, readOnto_ten_eq_some_iff]

theorem toList_decimal (n : Nat) : (decimal n).toList = Nat.toDigits 10 n := by
  rw [decimal, String.toList_ofList]

theorem isDigit_of_mem_decimal {n : Nat} {c : Char} (h : c ∈ (decimal n).toList) :
    c.isDigit = true := by
  rw [toList_decimal] at h
  exact Nat.isDigit_of_mem_toDigits (by decide) (by decide) h

/-- A number that is written out is read back. -/
theorem digits?_decimal (n : Nat) : digits? 10 (decimal n).toList = some n := by
  rw [digits?_ten_eq_some_iff]
  refine ⟨?_, fun c hc => isDigit_of_mem_decimal hc, ?_⟩
  · rw [toList_decimal]
    exact Nat.toDigits_ne_nil
  · rw [toList_decimal]
    exact Nat.ofDigitChars_ten_toDigits

/-! ### Hexadecimal numerals -/

/-- A hexadecimal digit and its value: above nine a letter of either case. -/
def IsHexDigit (c : Char) (d : Nat) : Prop :=
  d < 16 ∧ (c = d.digitChar ∨ c = d.digitChar.toUpper)

instance (c : Char) (d : Nat) : Decidable (IsHexDigit c d) := inferInstanceAs (Decidable (_ ∧ _))

/-- A hexadecimal numeral and the number it denotes, by its last digit. -/
inductive Hexadecimal : List Char → Nat → Prop
  | digit {c : Char} {d : Nat} : IsHexDigit c d → Hexadecimal [c] d
  | snoc {cs : List Char} {n : Nat} {c : Char} {d : Nat} :
      Hexadecimal cs n → IsHexDigit c d → Hexadecimal (cs ++ [c]) (n * 16 + d)

theorem digitValue?_of_isHexDigit {c : Char} {d : Nat} (h : IsHexDigit c d) :
    digitValue? 16 c = some d := by
  obtain ⟨hd, hc⟩ := h
  interval_cases d <;> rcases hc with rfl | rfl <;> decide

theorem readOnto_append (base value : Nat) (cs ds : List Char) :
    readOnto base value (cs ++ ds) =
      (readOnto base value cs).bind fun n => readOnto base n ds := by
  induction cs generalizing value with
  | nil => rfl
  | cons c rest ih =>
    rw [List.cons_append, readOnto, readOnto]
    cases digitValue? base c with
    | none => rfl
    | some d => exact ih _

theorem readOnto_of_hexadecimal {cs : List Char} {n : Nat} (h : Hexadecimal cs n) :
    readOnto 16 0 cs = some n := by
  induction h with
  | digit hc => simp [readOnto, digitValue?_of_isHexDigit hc]
  | snoc hcs hc ih =>
    rw [readOnto_append, ih]
    simp [readOnto, digitValue?_of_isHexDigit hc]

theorem Hexadecimal.ne_nil {cs : List Char} {n : Nat} (h : Hexadecimal cs n) : cs ≠ [] := by
  cases h <;> simp

theorem Hexadecimal.isHexDigit_of_mem {cs : List Char} {n : Nat} (h : Hexadecimal cs n)
    {c : Char} (hc : c ∈ cs) : ∃ d, IsHexDigit c d := by
  induction h with
  | digit hd =>
    rw [List.mem_singleton] at hc
    exact ⟨_, hc ▸ hd⟩
  | snoc hcs hd ih =>
    rcases List.mem_append.1 hc with hc | hc
    · exact ih hc
    · rw [List.mem_singleton] at hc
      exact ⟨_, hc ▸ hd⟩

/-- A hexadecimal numeral is read as the number it denotes. -/
theorem digits?_of_hexadecimal {cs : List Char} {n : Nat} (h : Hexadecimal cs n) :
    digits? 16 cs = some n := by
  rw [digits?, if_neg (by simpa using h.ne_nil), readOnto_of_hexadecimal h]

/-! ### Numerals that may have a sign -/

theorem signed?_eq_digits? {base : Nat} {cs : List Char} (h : cs.head? ≠ some '+') :
    signed? base cs = digits? base cs := by
  cases cs with
  | nil => rfl
  | cons c rest =>
    rw [signed?]
    rintro rest' heq
    simp [heq] at h

theorem bounded?_of_digits? {base bound n : Nat} {cs : List Char} (hn : n < bound)
    (hhead : cs.head? ≠ some '+') (h : digits? base cs = some n) :
    bounded? base bound cs = some n := by
  rw [bounded?, signed?_eq_digits? hhead, h]
  simp [hn]

end HttpExchange.Numeral
