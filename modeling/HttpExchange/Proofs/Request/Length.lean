import HttpExchange.Proofs.Text.Numeral
import HttpExchange.Request

/-!
# The body length that a request declares

`Declares` says in terms of the header alone which length a request declares for its body;
`contentLength?_eq_some_ok_iff` says that this is the length the server goes by, with the methods
of `expectsBody_iff`.
-/

namespace HttpExchange

theorem Method.expectsBody_iff (m : Method) :
    m.expectsBody = true ↔ m ∈ [Method.post, .put, .patch] := by
  cases m <;> decide

namespace Request

/-- The body length a request declares: its first `Content-Length` is, blank space around it apart,
a non-empty run of digits that denotes it, and it is a possible length. -/
def Declares (r : Request) (length : Nat) : Prop :=
  ∃ value, r.headers.first? "Content-Length" = some value ∧
    (Blank.trim value).toList ≠ [] ∧ (∀ c ∈ (Blank.trim value).toList, c.isDigit = true) ∧
    Nat.ofDigitChars 10 (Blank.trim value).toList 0 = length ∧ length < Numeral.lengthBound

theorem lengthOf_eq_ok_iff (value : String) (length : Nat) :
    lengthOf value = .ok length ↔
      Numeral.digits? 10 (Blank.trim value).toList = some length ∧
        length < Numeral.lengthBound := by
  rw [lengthOf]
  cases Numeral.digits? 10 (Blank.trim value).toList with
  | none => simp
  | some n =>
    by_cases hn : n < Numeral.lengthBound
    · simp only [if_pos hn, Except.ok.injEq, Option.some.injEq]
      exact ⟨fun h => ⟨h, h ▸ hn⟩, fun h => h.1⟩
    · simp only [if_neg hn, Option.some.injEq]
      exact ⟨nofun, fun h => absurd (h.1 ▸ h.2) hn⟩

theorem contentLength?_eq_some_ok_iff (r : Request) (length : Nat) :
    r.contentLength? = some (.ok length) ↔ r.Declares length := by
  rw [contentLength?, Option.map_eq_some_iff, Declares]
  simp only [lengthOf_eq_ok_iff, Numeral.digits?_ten_eq_some_iff, and_assoc]

end Request

end HttpExchange
