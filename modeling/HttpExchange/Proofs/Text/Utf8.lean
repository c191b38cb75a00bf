import Mathlib.Data.Char
import Mathlib.Data.List.Basic
import HttpExchange.Text.Utf8

/-!
# Texts come back from their bytes

* `firstPiece_utf8EncodeChar` — the scan takes the bytes of one character off the front and finds
  that character, whatever follows;
* `decode_encode`, `decode?_encode` — hence a text that is written as bytes is read back, strictly or
  not;
* `mem_encode_iff` — a byte below 0x80 stands for its own character wherever it occurs;
* `encode_ascii`, `decode_eq_ascii` — bytes below 0x80 are the bytes of the text with the same
  characters.
-/

namespace HttpExchange.Utf8

/-! ### Bytes as numbers -/

theorem toNat_ofNat_of_lt {n : Nat} (h : n < 256) : (UInt8.ofNat n).toNat = n := by
  rw [UInt8.toNat_ofNat', Nat.mod_eq_of_lt h]

theorem lead?_eq (b : UInt8) :
    lead? b =
      if 194 ≤ b.toNat ∧ b.toNat ≤ 223 then some ⟨1, 0x80, 0xBF⟩
      else if b.toNat = 224 then some ⟨2, 0xA0, 0xBF⟩
      else if b.toNat = 237 then some ⟨2, 0x80, 0x9F⟩
      else if 225 ≤ b.toNat ∧ b.toNat ≤ 239 then some ⟨2, 0x80, 0xBF⟩
      else if b.toNat = 240 then some ⟨3, 0x90, 0xBF⟩
      else if b.toNat = 244 then some ⟨3, 0x80, 0x8F⟩
      else if 241 ≤ b.toNat ∧ b.toNat ≤ 243 then some ⟨3, 0x80, 0xBF⟩
      else none := by
  simp only [lead?, UInt8.le_iff_toNat_le, ← UInt8.toNat_inj]
  rfl

/-- One continuation byte gives six more bits. -/
theorem continueFrom_succ (more value taken m : Nat) (rest : Bytes) :
    continueFrom (more + 1) value taken (UInt8.ofNat (m % 64 + 128) :: rest) =
      continueFrom more (value * 64 + m % 64) (taken + 1) rest := by
  have hn : (UInt8.ofNat (m % 64 + 128)).toNat = m % 64 + 128 := toNat_ofNat_of_lt (by omega)
  have hc : isContinuation (UInt8.ofNat (m % 64 + 128)) = true := by
    simp only [isContinuation, UInt8.le_iff_toNat_le, hn, Bool.and_eq_true, decide_eq_true_eq]
    show 128 ≤ _ ∧ _ ≤ 191
    omega
  rw [continueFrom, if_pos hc, hn, Nat.add_sub_cancel]

/-- A lead byte and a second byte in its range leave the rest to continuation bytes. -/
theorem firstPiece_of_lead {b c low high : UInt8} {more : Nat} (base : Nat) (hb : ¬b < 0x80)
    (hlead : lead? b = some ⟨more, low, high⟩)
    (hbase : base = if more = 1 then 0xC0 else if more = 2 then 0xE0 else 0xF0)
    (hc : low.toNat ≤ c.toNat ∧ c.toNat ≤ high.toNat) (rest : Bytes) :
    firstPiece b (c :: rest) =
      continueFrom (more - 1) ((b.toNat - base) * 64 + (c.toNat - 0x80)) 1 rest := by
  have hrange : low ≤ c ∧ c ≤ high := by simpa only [UInt8.le_iff_toNat_le] using hc
  simp only [firstPiece, if_neg hb, hlead, if_pos hrange, hbase]

theorem not_lt_of_le_toNat {b : UInt8} (h : 128 ≤ b.toNat) : ¬b < 0x80 := by
  rw [UInt8.lt_iff_toNat_lt]
  exact Nat.not_lt.2 h

/-! ### One character -/

theorem firstPiece_two {n : Nat} (low : 0x80 ≤ n) (high : n ≤ 0x7FF) (rest : Bytes) :
    firstPiece (UInt8.ofNat (n / 64 % 32 + 0xC0)) (UInt8.ofNat (n % 64 + 0x80) :: rest) =
      (some (Char.ofNat n), 1) := by
  have hb : (UInt8.ofNat (n / 64 % 32 + 0xC0)).toNat = n / 64 % 32 + 192 :=
    toNat_ofNat_of_lt (by omega)
  have hc : (UInt8.ofNat (n % 64 + 0x80)).toNat = n % 64 + 128 := toNat_ofNat_of_lt (by omega)
  have hlead : lead? (UInt8.ofNat (n / 64 % 32 + 0xC0)) = some ⟨1, 0x80, 0xBF⟩ := by
    rw [lead?_eq, hb, if_pos (by omega)]
  rw [firstPiece_of_lead 192 (not_lt_of_le_toNat (by omega)) hlead rfl
    (by rw [hc]; show 128 ≤ _ ∧ _ ≤ 191; omega), hb, hc, Nat.add_sub_cancel, Nat.add_sub_cancel]
  have hn : n / 64 % 32 * 64 + n % 64 = n := by omega
  rw [hn]
  rfl

theorem firstPiece_three {n : Nat} (low : 0x800 ≤ n) (high : n ≤ 0xFFFF)
    (hvalid : n < 0xD800 ∨ 0xDFFF < n) (rest : Bytes) :
    firstPiece (UInt8.ofNat (n / 4096 % 16 + 0xE0))
      (UInt8.ofNat (n / 64 % 64 + 0x80) :: UInt8.ofNat (n % 64 + 0x80) :: rest) =
      (some (Char.ofNat n), 2) := by
  have hb : (UInt8.ofNat (n / 4096 % 16 + 0xE0)).toNat = n / 4096 % 16 + 224 :=
    toNat_ofNat_of_lt (by omega)
  have hc : (UInt8.ofNat (n / 64 % 64 + 0x80)).toNat = n / 64 % 64 + 128 :=
    toNat_ofNat_of_lt (by omega)
  have hlead : ∃ low high, lead? (UInt8.ofNat (n / 4096 % 16 + 0xE0)) = some ⟨2, low, high⟩ ∧
      low.toNat ≤ n / 64 % 64 + 128 ∧ n / 64 % 64 + 128 ≤ high.toNat := by
    rw [lead?_eq, hb, if_neg (by omega)]
    -- the narrowed ranges of the second byte keep what is below and the surrogates out
    by_cases h0 : n / 4096 = 0
    · exact ⟨0xA0, 0xBF, by rw [if_pos (by omega)], by show 160 ≤ _; omega, by show _ ≤ 191; omega⟩
    · by_cases hD : n / 4096 = 13
      · exact ⟨0x80, 0x9F, by rw [if_neg (by omega), if_pos (by omega)], by show 128 ≤ _; omega,
          by show _ ≤ 159; omega⟩
      · exact ⟨0x80, 0xBF, by rw [if_neg (by omega), if_neg (by omega), if_pos (by omega)],
          by show 128 ≤ _; omega, by show _ ≤ 191; omega⟩
  obtain ⟨low, high, hlead, hlow, hhigh⟩ := hlead
  rw [firstPiece_of_lead 224 (not_lt_of_le_toNat (by omega)) hlead rfl
    (by rw [hc]; exact ⟨hlow, hhigh⟩), hb, hc, Nat.add_sub_cancel, Nat.add_sub_cancel]
  show continueFrom (0 + 1) _ 1 _ = _
  have hn : (n / 4096 % 16 * 64 + n / 64 % 64) * 64 + n % 64 = n := by omega
  rw [continueFrom_succ, hn]
  rfl

theorem firstPiece_four {n : Nat} (low : 0x10000 ≤ n) (high : n < 0x110000) (rest : Bytes) :
    firstPiece (UInt8.ofNat (n / 262144 % 8 + 0xF0))
      (UInt8.ofNat (n / 4096 % 64 + 0x80) :: UInt8.ofNat (n / 64 % 64 + 0x80) ::
        UInt8.ofNat (n % 64 + 0x80) :: rest) =
      (some (Char.ofNat n), 3) := by
  have hb : (UInt8.ofNat (n / 262144 % 8 + 0xF0)).toNat = n / 262144 % 8 + 240 :=
    toNat_ofNat_of_lt (by omega)
  have hc : (UInt8.ofNat (n / 4096 % 64 + 0x80)).toNat = n / 4096 % 64 + 128 :=
    toNat_ofNat_of_lt (by omega)
  have hlead : ∃ low high, lead? (UInt8.ofNat (n / 262144 % 8 + 0xF0)) = some ⟨3, low, high⟩ ∧
      low.toNat ≤ n / 4096 % 64 + 128 ∧ n / 4096 % 64 + 128 ≤ high.toNat := by
    rw [lead?_eq, hb, if_neg (by omega), if_neg (by omega), if_neg (by omega), if_neg (by omega)]
    by_cases h0 : n / 262144 = 0
    · exact ⟨0x90, 0xBF, by rw [if_pos (by omega)], by show 144 ≤ _; omega, by show _ ≤ 191; omega⟩
    · by_cases h4 : n / 262144 = 4
      · exact ⟨0x80, 0x8F, by rw [if_neg (by omega), if_pos (by omega)], by show 128 ≤ _; omega,
          by show _ ≤ 143; omega⟩
      · exact ⟨0x80, 0xBF, by rw [if_neg (by omega), if_neg (by omega), if_pos (by omega)],
          by show 128 ≤ _; omega, by show _ ≤ 191; omega⟩
  obtain ⟨low, high, hlead, hlow, hhigh⟩ := hlead
  rw [firstPiece_of_lead 240 (not_lt_of_le_toNat (by omega)) hlead rfl
    (by rw [hc]; exact ⟨hlow, hhigh⟩), hb, hc, Nat.add_sub_cancel, Nat.add_sub_cancel]
  show continueFrom (1 + 1) _ 1 _ = _
  have hn : ((n / 262144 % 8 * 64 + n / 4096 % 64) * 64 + n / 64 % 64) * 64 + n % 64 = n := by
    omega
  rw [continueFrom_succ, continueFrom_succ, hn]
  rfl

/-- **The scan finds the character that was written.** -/
theorem firstPiece_utf8EncodeChar (c : Char) (rest : Bytes) :
    ∃ b tail, String.utf8EncodeChar c = b :: tail ∧
      firstPiece b (tail ++ rest) = (some c, tail.length) := by
  have hvalid : c.toNat < 0xD800 ∨ 0xDFFF < c.toNat ∧ c.toNat < 0x110000 := c.valid
  have hc : Char.ofNat c.toNat = c := Char.ofNat_toNat c
  have hdef := String.utf8EncodeChar.eq_1 c
  rw [show c.val.toNat = c.toNat from rfl] at hdef
  by_cases h1 : c.toNat ≤ 0x7F
  · refine ⟨_, [], by rw [hdef]; exact if_pos h1, ?_⟩
    have hb : (UInt8.ofNat c.toNat).toNat = c.toNat := toNat_ofNat_of_lt (by omega)
    have hlt : UInt8.ofNat c.toNat < 0x80 := by
      rw [UInt8.lt_iff_toNat_lt, hb]
      exact Nat.lt_succ_of_le h1
    simp only [firstPiece, if_pos hlt, hb, hc, List.length_nil]
  · by_cases h2 : c.toNat ≤ 0x7FF
    · refine ⟨_, _, by rw [hdef]; exact (if_neg h1).trans (if_pos h2), ?_⟩
      have h := firstPiece_two (n := c.toNat) (by omega) h2 rest
      rwa [hc] at h
    · by_cases h3 : c.toNat ≤ 0xFFFF
      · refine ⟨_, _, by
          rw [hdef]; exact (if_neg h1).trans ((if_neg h2).trans (if_pos h3)), ?_⟩
        have h := firstPiece_three (n := c.toNat) (by omega) h3 (by omega) rest
        rwa [hc] at h
      · refine ⟨_, _, by
          rw [hdef]; exact (if_neg h1).trans ((if_neg h2).trans (if_neg h3)), ?_⟩
        have h := firstPiece_four (n := c.toNat) (by omega) (by omega) rest
        rwa [hc] at h

/-! ### Whole texts -/

theorem scanOnto_append (xs ys : List (Option Char)) (bytes : Bytes) :
    scanOnto (xs ++ ys) bytes = ys.reverse ++ scanOnto xs bytes := by
  fun_induction scanOnto xs bytes with
  | case1 xs => simp [scanOnto]
  | case2 xs b rest piece ih =>
    rw [scanOnto, ← ih]
    rfl

@[simp]
theorem scan_nil : scan [] = [] := by rw [scan, scanOnto, List.reverse_nil]

theorem scan_cons (b : UInt8) (rest : Bytes) :
    scan (b :: rest) = (firstPiece b rest).1 :: scan (rest.drop (firstPiece b rest).2) := by
  rw [scan, scanOnto]
  exact scanOnto_append [] [(firstPiece b rest).1] _

theorem scan_utf8EncodeChar_append (c : Char) (rest : Bytes) :
    scan (String.utf8EncodeChar c ++ rest) = some c :: scan rest := by
  obtain ⟨b, tail, hc, hpiece⟩ := firstPiece_utf8EncodeChar c rest
  rw [hc, List.cons_append, scan_cons, hpiece, List.drop_left]

@[simp]
theorem encode_append (s t : String) : encode (s ++ t) = encode s ++ encode t := by
  rw [encode, String.toList_append, List.flatMap_append]
  rfl

theorem scan_flatMap_append (cs : List Char) (rest : Bytes) :
    scan (cs.flatMap String.utf8EncodeChar ++ rest) = cs.map some ++ scan rest := by
  induction cs with
  | nil => rfl
  | cons c cs ih =>
    rw [List.flatMap_cons, List.append_assoc, scan_utf8EncodeChar_append, ih]
    rfl

theorem scan_encode (s : String) : scan (encode s) = s.toList.map some := by
  have h := scan_flatMap_append s.toList []
  rwa [List.append_nil, scan_nil, List.append_nil] at h

@[simp]
theorem decode_nil : decode [] = "" := by rw [decode, scan_nil]; rfl

/-- **A text comes back from its bytes.** -/
theorem decode_encode (s : String) : decode (encode s) = s := by
  rw [decode, scan_encode, List.map_map]
  show String.ofList (s.toList.map id) = s
  rw [List.map_id, String.ofList_toList]

/-- **The bytes of a text are well formed.** -/
theorem decode?_encode (s : String) : decode? (encode s) = some s := by
  have hall : (s.toList.map some).all Option.isSome = true := by simp
  have hmap : (s.toList.map some).filterMap id = s.toList := by simp
  simp only [decode?, scan_encode, hall, if_true, hmap, String.ofList_toList]

/-! ### Bytes below 0x80 -/

theorem utf8EncodeChar_of_le {c : Char} (h : c.toNat ≤ 0x7F) :
    String.utf8EncodeChar c = [UInt8.ofNat c.toNat] := by
  rw [String.utf8EncodeChar.eq_1, show c.val.toNat = c.toNat from rfl]
  exact if_pos h

/-- A byte below 0x80 occurs among a character's bytes only if it stands for that character. -/
theorem mem_utf8EncodeChar_iff {c : Char} {b : UInt8} (hb : b.toNat ≤ 0x7F) :
    b ∈ String.utf8EncodeChar c ↔ c.toNat = b.toNat := by
  by_cases h1 : c.toNat ≤ 0x7F
  · rw [utf8EncodeChar_of_le h1, List.mem_singleton, ← UInt8.toNat_inj,
      toNat_ofNat_of_lt (by omega)]
    exact eq_comm
  · refine iff_of_false ?_ (by omega)
    -- every byte of a longer form is 0x80 or more
    have hne : ∀ m, 128 ≤ m → m < 256 → b ≠ UInt8.ofNat m := by
      rintro m hlow hhigh rfl
      rw [toNat_ofNat_of_lt hhigh] at hb
      omega
    intro hmem
    rw [String.utf8EncodeChar.eq_1, show c.val.toNat = c.toNat from rfl] at hmem
    simp only [if_neg h1] at hmem
    split at hmem
    · simp only [List.mem_cons, List.not_mem_nil, or_false] at hmem
      rcases hmem with h | h <;> exact hne _ (by omega) (by omega) h
    · split at hmem
      · simp only [List.mem_cons, List.not_mem_nil, or_false] at hmem
        rcases hmem with h | h | h <;> exact hne _ (by omega) (by omega) h
      · simp only [List.mem_cons, List.not_mem_nil, or_false] at hmem
        rcases hmem with h | h | h | h <;> exact hne _ (by omega) (by omega) h

theorem mem_encode_iff {s : String} {b : UInt8} (hb : b.toNat ≤ 0x7F) :
    b ∈ encode s ↔ ∃ c ∈ s.toList, c.toNat = b.toNat := by
  rw [encode, List.mem_flatMap]
  simp only [mem_utf8EncodeChar_iff hb]

theorem encode_ne_nil {s : String} (h : s ≠ "") : encode s ≠ [] := by
  intro hnil
  apply h
  rw [← decode_encode s, hnil, decode_nil]

theorem utf8EncodeChar_ne_nil (c : Char) : String.utf8EncodeChar c ≠ [] := by
  obtain ⟨b, tail, hc, -⟩ := firstPiece_utf8EncodeChar c []
  rw [hc]
  exact List.cons_ne_nil b tail

/-- A text begins with the byte of an ASCII character only if it begins with that character. -/
theorem head?_of_head?_encode {s : String} {b : UInt8} (hb : b.toNat ≤ 0x7F)
    (h : (encode s).head? = some b) : ∃ c, s.toList.head? = some c ∧ c.toNat = b.toNat := by
  rw [encode] at h
  cases hs : s.toList with
  | nil =>
    rw [hs] at h
    cases h
  | cons c cs =>
    have hnonempty := utf8EncodeChar_ne_nil c
    rw [hs, List.flatMap_cons, List.head?_append_of_ne_nil _ hnonempty] at h
    exact ⟨c, rfl, (mem_utf8EncodeChar_iff hb).1 (List.mem_of_head? h)⟩

/-- A text ends with the byte of an ASCII character only if it ends with that character. -/
theorem getLast?_of_getLast?_encode {s : String} {b : UInt8} (hb : b.toNat ≤ 0x7F)
    (h : (encode s).getLast? = some b) : ∃ c, s.toList.getLast? = some c ∧ c.toNat = b.toNat := by
  rw [encode] at h
  rcases List.eq_nil_or_concat s.toList with hs | ⟨cs, c, hs⟩
  · rw [hs] at h
    cases h
  · rw [hs, List.concat_eq_append, List.flatMap_append, List.flatMap_singleton,
      List.getLast?_append_of_ne_nil _ (utf8EncodeChar_ne_nil c)] at h
    refine ⟨c, ?_, (mem_utf8EncodeChar_iff hb).1 (List.mem_of_getLast? h)⟩
    rw [hs, List.concat_eq_append, List.getLast?_concat]

/-- The character that a byte stands for by itself. -/
def charOf (b : UInt8) : Char := Char.ofNat b.toNat

theorem toNat_charOf (b : UInt8) : (charOf b).toNat = b.toNat := by
  have h : b.toNat.isValidChar := .inl (Nat.lt_trans b.toNat_lt (by decide))
  rw [charOf, Char.ofNat, dif_pos h]
  rfl

/-- The text whose characters are the given bytes. -/
def ascii (bytes : Bytes) : String := String.ofList (bytes.map charOf)

theorem encode_ascii {bytes : Bytes} (h : ∀ b ∈ bytes, b.toNat ≤ 0x7F) :
    encode (ascii bytes) = bytes := by
  rw [encode, ascii, String.toList_ofList]
  induction bytes with
  | nil => rfl
  | cons b rest ih =>
    have hb := h b List.mem_cons_self
    rw [List.map_cons, List.flatMap_cons, ih fun x hx => h x (List.mem_cons_of_mem b hx),
      utf8EncodeChar_of_le (by rw [toNat_charOf]; exact hb), toNat_charOf, UInt8.ofNat_toNat]
    rfl

/-- Bytes below 0x80 are read as the characters they stand for. -/
theorem decode_eq_ascii {bytes : Bytes} (h : ∀ b ∈ bytes, b.toNat ≤ 0x7F) :
    decode bytes = ascii bytes := by
  have hdecode := decode_encode (ascii bytes)
  rwa [encode_ascii h] at hdecode

/-- Bytes below 0x80 that are read as a text are its bytes. -/
theorem eq_encode_of_decode {bytes : Bytes} (h : ∀ b ∈ bytes, b.toNat ≤ 0x7F) {s : String}
    (hs : decode bytes = s) : bytes = encode s := by
  rw [← hs, decode_eq_ascii h, encode_ascii h]

end HttpExchange.Utf8
