import Mathlib.Data.Nat.Digits.Defs
import HttpExchange.Proofs.Outgoing.Written
import HttpExchange.Proofs.Response.Received

/-!
# A declared length is decoded exactly

The first `Content-Length` of a request declares the length of its body: a text, which has to be a
numeral, and which denotes a number of any size, where a length is below `2 ^ 64`.

* `Numeral.denoted` / `ofDigitChars_eq_denoted` — the number that digits denote by their places, and
  that it is what digit after digit comes to;
* `Numeral.readWithin?_eq` — a number that leaves its range is noticed at some digit, and no other
  is given up;
* `Request.lengthOf_eq_notDigits_iff`, `lengthOf_eq_overflow_iff`, `lengthOf_eq_ok_iff_denoted` —
  what a value is decoded to;
* `Request.lengthOf_zeros_decimal`, `Response.declares_length`, `Outgoing.declares_length` — the
  lengths that are written are decoded to themselves;
* `Request.contentLength?_decodes` — so a request is decoded, and what is written is.
-/

namespace HttpExchange

namespace Numeral

/-! ### The number that digits denote -/

/-- The number that decimal digits denote: the last of them counts ones, the one before it tens. -/
def denoted (cs : List Char) : Nat :=
  Nat.ofDigits 10 (cs.reverse.map fun c => c.toNat - '0'.toNat)

/-- Reads a number digit after digit, below a bound.  It is given up at the first digit with which
it would not be below the bound. -/
def readWithin? (bound value : Nat) : List Char → Option Nat
  | [] => some value
  | c :: rest =>
    if bound ≤ value * 10 then none
    else if bound ≤ value * 10 + (c.toNat - '0'.toNat) then none
    else readWithin? bound (value * 10 + (c.toNat - '0'.toNat)) rest

/-- A last digit counts ones, and all others ten times what they did. -/
theorem denoted_concat (cs : List Char) (c : Char) :
    denoted (cs ++ [c]) = 10 * denoted cs + (c.toNat - '0'.toNat) := by
  rw [denoted, List.reverse_concat, List.map_cons, Nat.ofDigits_cons, Nat.add_comm]
  rfl

/-- **Digit after digit comes to the number that the places denote.** -/
theorem ofDigitChars_eq_denoted (cs : List Char) : Nat.ofDigitChars 10 cs 0 = denoted cs := by
  induction cs using List.reverseRecOn with
  | nil => rfl
  | append_singleton cs c ih =>
    rw [Nat.ofDigitChars_append, ih, denoted_concat, Nat.ofDigitChars_cons, Nat.ofDigitChars_nil]

/-- Zeros in front denote nothing. -/
theorem denoted_zeros_append (count : Nat) (cs : List Char) :
    denoted (List.replicate count '0' ++ cs) = denoted cs := by
  rw [denoted, List.reverse_append, List.reverse_replicate, List.map_append, List.map_replicate]
  exact Nat.ofDigits_append_replicate_zero _

theorem denoted_decimal (n : Nat) : denoted (decimal n).toList = n := by
  rw [← ofDigitChars_eq_denoted, toList_decimal, Nat.ofDigitChars_ten_toDigits]

/-- Further digits make no number smaller. -/
theorem le_ofDigitChars (cs : List Char) (value : Nat) : value ≤ Nat.ofDigitChars 10 cs value := by
  induction cs generalizing value with
  | nil => exact Nat.le_refl _
  | cons c rest ih =>
    rw [Nat.ofDigitChars_cons]
    have hrest := ih (10 * value + (c.toNat - '0'.toNat))
    omega

/-- **Just the numbers that leave their range are given up**, at whichever digit that is. -/
theorem readWithin?_eq {bound value : Nat} (cs : List Char) (hvalue : value < bound) :
    readWithin? bound value cs =
      if Nat.ofDigitChars 10 cs value < bound then some (Nat.ofDigitChars 10 cs value)
      else none := by
  induction cs generalizing value with
  | nil => rw [readWithin?, Nat.ofDigitChars_nil, if_pos hvalue]
  | cons c rest ih =>
    have hgrows := le_ofDigitChars rest (value * 10 + (c.toNat - '0'.toNat))
    rw [readWithin?, Nat.ofDigitChars_cons, Nat.mul_comm 10 value]
    by_cases htens : bound ≤ value * 10
    · rw [if_pos htens, if_neg (by omega)]
    · rw [if_neg htens]
      by_cases hones : bound ≤ value * 10 + (c.toNat - '0'.toNat)
      · rw [if_pos hones, if_neg (by omega)]
      · rw [if_neg hones, ih (Nat.lt_of_not_le hones)]

/-- What is not read as a decimal number is empty, or not of digits only. -/
theorem digits?_ten_eq_none_iff (cs : List Char) :
    digits? 10 cs = none ↔ cs = [] ∨ ∃ c ∈ cs, c.isDigit = false := by
  rw [Option.eq_none_iff_forall_ne_some]
  constructor
  · intro hnone
    by_cases hempty : cs = []
    · exact .inl hempty
    · by_contra hproper
      rw [not_or] at hproper
      refine hnone _ ((digits?_ten_eq_some_iff cs _).2 ⟨hempty, fun c hc => ?_, rfl⟩)
      by_contra hdigit
      exact hproper.2 ⟨c, hc, Bool.eq_false_iff.2 hdigit⟩
  · rintro (rfl | ⟨c, hc, hdigit⟩) n hsome
    · exact absurd rfl ((digits?_ten_eq_some_iff _ _).1 hsome).1
    · rw [((digits?_ten_eq_some_iff _ _).1 hsome).2.1 c hc] at hdigit
      cases hdigit

end Numeral

namespace Request

/-! ### What a value is decoded to -/

theorem lengthOf_eq_notDigits_iff (value : String) :
    lengthOf value = .error .notDigits ↔
      (Blank.trim value).toList = [] ∨ ∃ c ∈ (Blank.trim value).toList, c.isDigit = false := by
  rw [← Numeral.digits?_ten_eq_none_iff, lengthOf]
  cases Numeral.digits? 10 (Blank.trim value).toList with
  | none => exact iff_of_true rfl rfl
  | some n =>
    refine iff_of_false (fun h => ?_) (Option.some_ne_none n)
    dsimp only at h
    split at h <;> cases h

theorem lengthOf_eq_ok_iff_denoted (value : String) (n : Nat) :
    lengthOf value = .ok n ↔
      ((Blank.trim value).toList ≠ [] ∧ ∀ c ∈ (Blank.trim value).toList, c.isDigit = true) ∧
        Numeral.denoted (Blank.trim value).toList = n ∧ n < 2 ^ 64 := by
  rw [lengthOf_eq_ok_iff, Numeral.digits?_ten_eq_some_iff, Numeral.ofDigitChars_eq_denoted,
    show Numeral.lengthBound = 2 ^ 64 from rfl]
  simp only [and_assoc]

theorem lengthOf_eq_overflow_iff (value : String) :
    lengthOf value = .error .overflow ↔
      ((Blank.trim value).toList ≠ [] ∧ ∀ c ∈ (Blank.trim value).toList, c.isDigit = true) ∧
        2 ^ 64 ≤ Numeral.denoted (Blank.trim value).toList := by
  rw [lengthOf, ← Numeral.ofDigitChars_eq_denoted]
  cases hread : Numeral.digits? 10 (Blank.trim value).toList with
  | none =>
    refine iff_of_false (fun h => by cases h) fun h => ?_
    rw [(Numeral.digits?_ten_eq_some_iff _ _).2 ⟨h.1.1, h.1.2, rfl⟩] at hread
    cases hread
  | some n =>
    obtain ⟨hempty, hdigits, rfl⟩ := (Numeral.digits?_ten_eq_some_iff _ _).1 hread
    dsimp only
    rw [show Numeral.lengthBound = 2 ^ 64 from rfl]
    split
    · next hbelow =>
      exact iff_of_false (fun h => by cases h) fun h => absurd h.2 (Nat.not_le.2 hbelow)
    · next hbelow => exact iff_of_true rfl ⟨⟨hempty, hdigits⟩, Nat.le_of_not_lt hbelow⟩

/-- Of a numeral, the number is read digit after digit; too large a one is noticed on the way. -/
theorem lengthOf_eq_readWithin? {value : String} (hempty : (Blank.trim value).toList ≠ [])
    (hdigits : ∀ c ∈ (Blank.trim value).toList, c.isDigit = true) :
    lengthOf value =
      match Numeral.readWithin? (2 ^ 64) 0 (Blank.trim value).toList with
      | some n => .ok n
      | none => .error .overflow := by
  have hread := (Numeral.digits?_ten_eq_some_iff (Blank.trim value).toList _).2
    ⟨hempty, hdigits, rfl⟩
  rw [lengthOf, hread, Numeral.readWithin?_eq _ (by decide)]
  dsimp only
  rw [show Numeral.lengthBound = 2 ^ 64 from rfl]
  split <;> rfl

/-! ### Lengths that are written -/

/-- **A length that is written is decoded to itself**, also with zeros in front. -/
theorem lengthOf_zeros_decimal (count : Nat) {n : Nat} (hn : n < 2 ^ 64) :
    lengthOf (String.ofList (List.replicate count '0') ++ Numeral.decimal n) = .ok n := by
  have htext : (String.ofList (List.replicate count '0') ++ Numeral.decimal n).toList =
      List.replicate count '0' ++ (Numeral.decimal n).toList := by
    rw [String.toList_append, String.toList_ofList]
  have hdigits : ∀ c ∈ (String.ofList (List.replicate count '0') ++ Numeral.decimal n).toList,
      c.isDigit = true := by
    intro c hc
    rw [htext] at hc
    rcases List.mem_append.1 hc with hzero | hdigit
    · rw [List.eq_of_mem_replicate hzero]
      decide
    · exact Numeral.isDigit_of_mem_decimal hdigit
  have hempty : (Numeral.decimal n).toList ≠ [] := by
    rw [Numeral.toList_decimal]
    exact Nat.toDigits_ne_nil
  rw [lengthOf_eq_ok_iff_denoted,
    Blank.trim_eq_self fun c hc => Blank.not_isBlank_of_isDigit (hdigits c hc)]
  refine ⟨⟨?_, hdigits⟩, ?_, hn⟩
  · rw [htext]
    exact List.append_ne_nil_of_right_ne_nil _ hempty
  · rw [htext, Numeral.denoted_zeros_append, Numeral.denoted_decimal]

/-- A text has a line that declares a length, by the numeral of it. -/
def Tells (text : String) (length : Nat) : Prop :=
  ∃ before after,
    text = before ++ ("Content-Length: " ++ Numeral.decimal length ++ "\r\n") ++ after

/-- The field of these that declares a length does so by the numeral of it. -/
def Declare (headers : Headers) (length : Nat) : Prop :=
  headers.first? "Content-Length" = some (Numeral.decimal length)

theorem declare_concat {headers : Headers} (hnone : headers.first? "Content-Length" = none)
    (length : Nat) :
    Declare (headers ++ [⟨"Content-Length", Numeral.decimal length⟩]) length := by
  rw [Declare, Headers.first?_append, hnone, Option.none_or, Headers.first?_singleton_self]

end Request

section Written

open Request (Tells Declare declare_concat)

/-- A response whose length has to be declared declares it, wherever that is done: where it is
written, where it is built and where its body is taken off. -/
theorem Response.declares_length {r : Response} (hneeds : r.needsLength = true) :
    Tells r.headText r.bodyLength ∧
      Declare (ResponseParts.build ⟨r⟩).headers r.bodyLength ∧
      Declare r.withoutBody.headers r.bodyLength := by
  have hnone : r.headers.first? "Content-Length" = none := ((needsLength_iff r).1 hneeds).1
  refine ⟨⟨?before, ?after, ?_⟩, ?_, ?_⟩
  case before =>
    exact "HTTP/1.1 " ++ Numeral.decimal r.status.code ++ " " ++ r.status.reason ++ "\r\n"
      ++ String.join (r.headers.map fieldLine)
  case after =>
    exact (if r.headers.has "Connection" then "" else fieldLine ⟨"Connection", "close"⟩) ++ "\r\n"
  · delta headText
    rw [if_pos hneeds, ← String.append_assoc]
    rfl
  · rw [ResponseParts.build, if_pos hneeds]
    exact declare_concat hnone r.bodyLength
  · rw [withoutBody_of_needsLength hneeds]
    exact declare_concat hnone r.bodyLength

/-- So does a request that declares the length of its body, where it is written. -/
theorem Outgoing.declares_length {r : Outgoing} (hdeclares : r.declaresLength = true)
    {viaProxy : Bool} {bytes : Bytes} (hencode : r.encode? viaProxy = .ok bytes) :
    ∃ text, bytes = Utf8.encode text ++ r.body ∧ Tells text r.body.length := by
  rw [encode?] at hencode
  cases hhost : r.hostField with
  | error error =>
    rw [hhost] at hencode
    cases hencode
  | ok host =>
    rw [hhost] at hencode
    cases hencode
    have hlines : String.join ((r.sentHeaders host).map line) =
        String.join ((⟨"Host", host⟩ :: r.headers.filter (!isManaged ·)).map line) ++
          ("Content-Length: " ++ Numeral.decimal r.body.length ++ "\r\n") := by
      rw [sentHeaders, if_pos hdeclares, List.map_append, String.join_append, List.map_singleton,
        String.join_cons, String.join_nil, String.append_empty]
      rfl
    refine ⟨_, rfl, r.method.name ++ " " ++ r.target viaProxy ++ " HTTP/1.1\r\n" ++
      String.join ((⟨"Host", host⟩ :: r.headers.filter (!isManaged ·)).map line), "\r\n", ?_⟩
    delta headText
    rw [hlines, ← String.append_assoc]

end Written

namespace Request

/-! ### What a request declares -/

/-- A request declares no length just if none of its fields has the name. -/
theorem contentLength?_eq_none_iff (r : Request) :
    r.contentLength? = none ↔
      ∀ h ∈ r.headers, Ascii.eqIgnoreCase h.name "Content-Length" = false := by
  rw [contentLength?, Option.map_eq_none_iff, Headers.first?, Option.map_eq_none_iff,
    List.find?_eq_none]
  exact forall₂_congr fun h _ => Bool.not_eq_true _ ▸ Iff.rfl

/-- The first field of the name decides, whatever follows it. -/
theorem contentLength?_of_first {r : Request} {before after : Headers} {field : Header}
    (hheaders : r.headers = before ++ field :: after)
    (hbefore : ∀ h ∈ before, Ascii.eqIgnoreCase h.name "Content-Length" = false)
    (hfield : Ascii.eqIgnoreCase field.name "Content-Length" = true) :
    r.contentLength? = some (lengthOf field.value) := by
  have hnone : before.find? (·.named "Content-Length") = none :=
    List.find?_eq_none.2 fun h hh => Bool.not_eq_true _ ▸ hbefore h hh
  have hnamed : field.named "Content-Length" = true := hfield
  rw [contentLength?, Headers.first?, hheaders, List.find?_append, hnone, Option.none_or,
    List.find?_cons_of_pos (p := fun h => Header.named h "Content-Length") hnamed]
  rfl

/-- **A declared length is decoded exactly.**  There is none just if no field has the name; else the
first such field decides.  Its value, without the blanks around it, is no numeral just if it is
empty or not of digits only; of digits, the number that they denote decides, whatever zeros are in
front, and reading them one after another notices just the numbers that are too large.  Every length
that is written, by a response or by a request, is written as the numeral that is decoded to it. -/
theorem contentLength?_decodes (r : Request) :
    (r.contentLength? = none ↔
        ∀ h ∈ r.headers, Ascii.eqIgnoreCase h.name "Content-Length" = false) ∧
      (∀ before field after, r.headers = before ++ field :: after →
        (∀ h ∈ before, Ascii.eqIgnoreCase h.name "Content-Length" = false) →
        Ascii.eqIgnoreCase field.name "Content-Length" = true →
        ∀ cs, cs = (Blank.trim field.value).toList →
          (r.contentLength? = some (.error .notDigits) ↔
            cs = [] ∨ ∃ c ∈ cs, c.isDigit = false) ∧
          (r.contentLength? = some (.error .overflow) ↔
            (cs ≠ [] ∧ ∀ c ∈ cs, c.isDigit = true) ∧ 2 ^ 64 ≤ Numeral.denoted cs) ∧
          (∀ n, r.contentLength? = some (.ok n) ↔
            (cs ≠ [] ∧ ∀ c ∈ cs, c.isDigit = true) ∧ Numeral.denoted cs = n ∧ n < 2 ^ 64) ∧
          (cs ≠ [] → (∀ c ∈ cs, c.isDigit = true) → r.contentLength? =
            some (match Numeral.readWithin? (2 ^ 64) 0 cs with
              | some n => .ok n
              | none => .error .overflow))) ∧
      (∀ count n, n < 2 ^ 64 →
        lengthOf (Numeral.decimal n) = .ok n ∧
          lengthOf (String.ofList (List.replicate count '0') ++ Numeral.decimal n) = .ok n) ∧
      (∀ response : Response, response.needsLength = true →
        (∃ text, response.buffers.head? = some (Utf8.encode text) ∧
          Tells text response.bodyLength) ∧
        Declare (ResponseParts.build ⟨response⟩).headers response.bodyLength ∧
        Declare response.withoutBody.headers response.bodyLength) ∧
      (∀ (request : Outgoing) viaProxy bytes, request.declaresLength = true →
        request.encode? viaProxy = .ok bytes →
        ∃ text, bytes = Utf8.encode text ++ request.body ∧ Tells text request.body.length) := by
  refine ⟨contentLength?_eq_none_iff r, ?values, ?numerals, ?responses, ?requests⟩
  case values =>
    rintro before field after hheaders hbefore hfield cs rfl
    rw [contentLength?_of_first hheaders hbefore hfield]
    refine ⟨?_, ?_, fun n => ?_, fun hempty hdigits => ?_⟩
    · rw [Option.some_inj, lengthOf_eq_notDigits_iff]
    · rw [Option.some_inj, lengthOf_eq_overflow_iff]
    · rw [Option.some_inj, lengthOf_eq_ok_iff_denoted]
    · rw [lengthOf_eq_readWithin? hempty hdigits]
  case numerals =>
    exact fun count n hn => ⟨Outgoing.lengthOf_decimal hn, lengthOf_zeros_decimal count hn⟩
  case responses =>
    intro response hneeds
    obtain ⟨hhead, hbuilt, hbare⟩ := Response.declares_length hneeds
    exact ⟨⟨response.headText, rfl, hhead⟩, hbuilt, hbare⟩
  case requests =>
    exact fun request viaProxy bytes hdeclares hencode =>
      Outgoing.declares_length hdeclares hencode

/-- A name of any case, blanks of any kind around the value, zeros in front, a second field. -/
theorem contentLength?_decodes_padded :
    (contentLength? { headers := [⟨"Host", "a"⟩, ⟨"content-LENGTH", " 0042\u00a0"⟩,
      ⟨"Content-Length", "7"⟩] }) = some (.ok 42) :=
  ((((contentLength?_decodes _).2.1 [⟨"Host", "a"⟩] ⟨"content-LENGTH", " 0042\u00a0"⟩
    [⟨"Content-Length", "7"⟩] rfl (by decide) (by decide) "0042".toList (by decide)).2.2.1 42).2
      ⟨⟨by decide, List.all_eq_true.1 (by decide)⟩, by decide, by decide⟩)

end Request

end HttpExchange
