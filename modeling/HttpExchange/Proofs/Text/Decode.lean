import Mathlib.Algebra.Group.Nat.Defs
import HttpExchange.Proofs.Text.Utf8

/-!
# ASCII in decoded text

Any bytes can be decoded; ill-formed pieces become U+FFFD.  Whatever the bytes are, an ASCII
character of the text stands for one byte, and that byte has its value: no sequence of several bytes
and no ill-formed piece gives an ASCII character.

* `firstPiece_of_ascii` — the one step of it;
* `mem_of_mem_decode`, `head?_of_head?_decode`, `getLast?_of_getLast?_decode` — so it is inside the
  text and at its ends.

Each piece takes a byte at least, so a text has no more characters than there were bytes
(`length_decode_le`).
-/

namespace HttpExchange.Utf8

/-- What continuation bytes make of a value. -/
theorem exists_value_of_continueFrom {more value taken n : Nat} {rest : Bytes} {c : Char}
    (h : continueFrom more value taken rest = (some c, n)) :
    ∃ v, c = Char.ofNat v ∧ value * 64 ^ more ≤ v ∧ v < (value + 1) * 64 ^ more := by
  induction more generalizing value taken rest with
  | zero =>
    rw [continueFrom] at h
    refine ⟨value, (Option.some.inj (Prod.mk.inj h).1).symm, ?_, ?_⟩
    · omega
    · omega
  | succ more ih =>
    cases rest with
    | nil => exact absurd (Prod.mk.inj h).1 (by simp)
    | cons b rest =>
      rw [continueFrom] at h
      split at h
      · next hb =>
        obtain ⟨v, hc, hlow, hhigh⟩ := ih h
        have hrange : b.toNat - 0x80 ≤ 63 := by
          rw [isContinuation, Bool.and_eq_true, decide_eq_true_eq, decide_eq_true_eq,
            UInt8.le_iff_toNat_le, UInt8.le_iff_toNat_le] at hb
          have hhigh : b.toNat ≤ 0xBF := hb.2
          omega
        have hpow : 64 ^ (more + 1) = 64 * 64 ^ more := Nat.pow_succ'
        refine ⟨v, hc, ?_, ?_⟩
        · calc value * 64 ^ (more + 1) = value * 64 * 64 ^ more := by rw [hpow, Nat.mul_assoc]
            _ ≤ (value * 64 + (b.toNat - 0x80)) * 64 ^ more := Nat.mul_le_mul_right _ (by omega)
            _ ≤ v := hlow
        · calc v < (value * 64 + (b.toNat - 0x80) + 1) * 64 ^ more := hhigh
            _ ≤ (value + 1) * 64 * 64 ^ more := Nat.mul_le_mul_right _ (by omega)
            _ = (value + 1) * 64 ^ (more + 1) := by rw [hpow, Nat.mul_assoc]
      · exact absurd (Prod.mk.inj h).1 (by simp)

/-- A code point that is no ASCII character. -/
theorem toNat_ofNat_ge {v : Nat} (hlow : 0x80 ≤ v)
    (hvalid : v < 0xD800 ∨ 0xDFFF < v ∧ v < 0x110000) :
    0x80 ≤ (Char.ofNat v).toNat := by
  have hv : v.isValidChar := hvalid
  rw [Char.ofNat, dif_pos hv]
  exact hlow

/-- **A sequence of several bytes is no ASCII character.** -/
theorem toNat_ge_of_firstPiece {b : UInt8} (hb : ¬b < 0x80) {rest : Bytes} {c : Char} {n : Nat}
    (h : firstPiece b rest = (some c, n)) : 0x80 ≤ c.toNat := by
  rw [firstPiece.eq_def, if_neg hb] at h
  split at h
  · exact absurd (Prod.mk.inj h).1 (by simp)
  · exact absurd (Prod.mk.inj h).1 (by simp)
  · next l d rest hlead =>
    split at h
    · next hd =>
      obtain ⟨v, rfl, hlow, hhigh⟩ := exists_value_of_continueFrom h
      rw [UInt8.le_iff_toNat_le, UInt8.le_iff_toNat_le] at hd
      rw [lead?_eq] at hlead
      -- the ranges of the second byte keep out short values, surrogates and too large ones
      have hcode : 0x80 ≤ v ∧ (v < 0xD800 ∨ 0xDFFF < v ∧ v < 0x110000) := by
        clear h
        repeat' split at hlead
        all_goals cases hlead
        all_goals
          simp only [UInt8.reduceToNat, Nat.reduceEqDiff, Nat.reduceSub, Nat.reducePow, Nat.pow_zero,
            if_true, if_false] at hlow hhigh hd
          omega
      exact toNat_ofNat_ge hcode.1 hcode.2
    · exact absurd (Prod.mk.inj h).1 (by simp)

/-- What is put for a piece in a text. -/
def charOfPiece (piece : Option Char) : Char := piece.getD (Char.ofNat 0xFFFD)

theorem decode_nil_toList : (decode []).toList = [] := by rw [decode_nil]; rfl

theorem toList_decode_cons (b : UInt8) (rest : Bytes) :
    (decode (b :: rest)).toList =
      charOfPiece (firstPiece b rest).1 :: (decode (rest.drop (firstPiece b rest).2)).toList := by
  rw [decode, decode, String.toList_ofList, String.toList_ofList, scan_cons]
  rfl

/-- **An ASCII character is a piece of one byte.** -/
theorem firstPiece_of_ascii {b : UInt8} {rest : Bytes}
    (h : (charOfPiece (firstPiece b rest).1).toNat ≤ 0x7F) :
    firstPiece b rest = (some (Char.ofNat b.toNat), 0) ∧
      (charOfPiece (firstPiece b rest).1).toNat = b.toNat := by
  by_cases hb : b < 0x80
  · have hpiece : firstPiece b rest = (some (Char.ofNat b.toNat), 0) := by
      rw [firstPiece.eq_def, if_pos hb]
    rw [hpiece]
    exact ⟨rfl, toNat_charOf b⟩
  · exfalso
    cases hpiece : firstPiece b rest with
    | mk piece n =>
      rw [hpiece] at h
      cases piece with
      | none => exact absurd h (show ¬(Char.ofNat 0xFFFD).toNat ≤ 0x7F by decide)
      | some c =>
        have hc : 0x80 ≤ c.toNat := toNat_ge_of_firstPiece hb hpiece
        have hle : c.toNat ≤ 0x7F := h
        omega

/-- The ASCII characters of a text are among its bytes. -/
theorem mem_of_mem_decode {bytes : Bytes} {c : Char} (hc : c ∈ (decode bytes).toList)
    (hascii : c.toNat ≤ 0x7F) : ∃ b ∈ bytes, b.toNat = c.toNat := by
  -- a piece takes at least one byte, so the induction is on the number of bytes
  induction hlength : bytes.length using Nat.strong_induction_on generalizing bytes with
  | _ length ih =>
    cases bytes with
    | nil =>
      rw [decode_nil_toList] at hc
      cases hc
    | cons b rest =>
      rw [toList_decode_cons] at hc
      rcases List.mem_cons.1 hc with rfl | hc
      · exact ⟨b, List.mem_cons_self, (firstPiece_of_ascii hascii).2.symm⟩
      · have hshorter : (rest.drop (firstPiece b rest).2).length < length := by
          rw [← hlength, List.length_drop, List.length_cons]
          omega
        obtain ⟨x, hx, heq⟩ := ih _ hshorter hc rfl
        exact ⟨x, List.mem_cons_of_mem b (List.mem_of_mem_drop hx), heq⟩

/-- A text that begins with an ASCII character begins with its byte. -/
theorem head?_of_head?_decode {bytes : Bytes} {c : Char}
    (hc : (decode bytes).toList.head? = some c) (hascii : c.toNat ≤ 0x7F) :
    ∃ b, bytes.head? = some b ∧ b.toNat = c.toNat := by
  cases bytes with
  | nil =>
    rw [decode_nil_toList] at hc
    cases hc
  | cons b rest =>
    rw [toList_decode_cons, List.head?_cons] at hc
    obtain rfl := Option.some.inj hc
    exact ⟨b, rfl, (firstPiece_of_ascii hascii).2.symm⟩

/-- A text that ends with an ASCII character ends with its byte. -/
theorem getLast?_of_getLast?_decode {bytes : Bytes} {c : Char}
    (hc : (decode bytes).toList.getLast? = some c) (hascii : c.toNat ≤ 0x7F) :
    ∃ b, bytes.getLast? = some b ∧ b.toNat = c.toNat := by
  induction hlength : bytes.length using Nat.strong_induction_on generalizing bytes with
  | _ length ih =>
    cases bytes with
    | nil =>
      rw [decode_nil_toList] at hc
      cases hc
    | cons b rest =>
      rw [toList_decode_cons] at hc
      cases hrest : rest.drop (firstPiece b rest).2 with
      | nil =>
        -- the last piece is the first one, and it is one byte
        rw [hrest, decode_nil_toList, List.getLast?_singleton] at hc
        obtain rfl := Option.some.inj hc
        obtain ⟨hpiece, heq⟩ := firstPiece_of_ascii hascii
        rw [hpiece, List.drop_zero] at hrest
        exact ⟨b, by rw [hrest]; rfl, heq.symm⟩
      | cons x others =>
        have hshorter : (x :: others).length < length := by
          rw [← hlength, ← hrest, List.length_drop, List.length_cons]
          omega
        rw [hrest, toList_decode_cons, List.getLast?_cons_cons, ← toList_decode_cons] at hc
        obtain ⟨last, hlast, heq⟩ := ih _ hshorter hc rfl
        refine ⟨last, ?_, heq⟩
        have hsuffix : x :: others <:+ b :: rest := by
          rw [← hrest]
          exact (List.drop_suffix _ _).trans (List.suffix_cons b rest)
        obtain ⟨front, hfront⟩ := hsuffix
        rw [← hfront, List.getLast?_append_of_ne_nil _ (List.cons_ne_nil x others)]
        exact hlast

/-! ### The length of a text -/

theorem length_scan_le (bytes : Bytes) : (scan bytes).length ≤ bytes.length := by
  induction hlength : bytes.length using Nat.strong_induction_on generalizing bytes with
  | _ length ih =>
    cases bytes with
    | nil =>
      rw [scan_nil]
      exact Nat.zero_le _
    | cons b rest =>
      have hshorter : (rest.drop (firstPiece b rest).2).length < length := by
        rw [← hlength, List.length_drop, List.length_cons]
        omega
      have hrest := ih _ hshorter _ rfl
      rw [scan_cons, List.length_cons]
      omega

/-- **A text has no more characters than it had bytes**, ill-formed or not. -/
theorem length_decode_le (bytes : Bytes) : (decode bytes).length ≤ bytes.length := by
  rw [decode, String.length_ofList, List.length_map]
  exact length_scan_le bytes

end HttpExchange.Utf8
