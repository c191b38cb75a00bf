import HttpExchange.Proofs.Text.Numeral
import HttpExchange.Text.Ascii
import HttpExchange.Text.Blank

/-!
# Texts without padding

* `stripEnds_eq_self` — a list whose ends are not of the class is left as it is;
* `stripEnds_cons` — one element of the class in front makes no difference;
* `stripEnds_stripEnds` — nor does stripping what has been stripped;
* `trim_decimal` — a number that is written out has no blanks;
* `plain_of_eqIgnoreCase` — nor has a text that is equal, up to case, to one without them.
-/

namespace HttpExchange.Blank

section Strip

variable {α : Type} {p : α → Bool}

theorem dropWhile_eq_self {xs : List α} (h : ∀ x, xs.head? = some x → p x = false) :
    xs.dropWhile p = xs := by
  cases xs with
  | nil => rfl
  | cons x xs => rw [List.dropWhile_cons_of_neg (by rw [h x rfl]; exact Bool.false_ne_true)]

/-- Nothing is dropped from a list whose ends are not of the class. -/
theorem stripEnds_eq_self {xs : List α} (hhead : ∀ x, xs.head? = some x → p x = false)
    (hlast : ∀ x, xs.getLast? = some x → p x = false) : stripEnds p xs = xs := by
  have hreverse : ∀ x, xs.reverse.head? = some x → p x = false := by
    intro x hx
    rw [List.head?_reverse] at hx
    exact hlast x hx
  rw [stripEnds, dropWhile_eq_self hhead, dropWhile_eq_self hreverse, List.reverse_reverse]

/-- One more element of the class in front is dropped. -/
theorem stripEnds_cons {x : α} (hx : p x = true) (xs : List α) :
    stripEnds p (x :: xs) = stripEnds p xs := by
  rw [stripEnds, List.dropWhile_cons_of_pos hx]
  rfl

/-- What is left has no end of the class. -/
theorem stripEnds_stripEnds (xs : List α) : stripEnds p (stripEnds p xs) = stripEnds p xs := by
  have hfirst (ys : List α) {y : α} (hy : (ys.dropWhile p).head? = some y) : p y = false := by
    have hnot := List.head?_dropWhile_not p ys
    rwa [hy] at hnot
  apply stripEnds_eq_self
  · intro x hx
    -- What is dropped at the end stands behind something that stays.
    obtain ⟨dropped, hdropped⟩ := List.dropWhile_suffix (l := (xs.dropWhile p).reverse) p
    have hwhole : xs.dropWhile p = stripEnds p xs ++ dropped.reverse := by
      rw [stripEnds, ← List.reverse_append, hdropped, List.reverse_reverse]
    apply hfirst xs
    rw [hwhole, List.head?_append, hx]
    rfl
  · intro x hx
    rw [stripEnds, List.getLast?_reverse] at hx
    exact hfirst _ hx

end Strip

theorem trim_trim (s : String) : trim (trim s) = trim s := by
  rw [trim, trim, String.toList_ofList, stripEnds_stripEnds]

/-- A text without blanks is left as it is. -/
theorem trim_eq_self {s : String} (h : ∀ c ∈ s.toList, isBlank c = false) : trim s = s := by
  rw [trim, stripEnds_eq_self (fun x hx => h x (List.mem_of_head? hx))
    (fun x hx => h x (List.mem_of_getLast? hx)), String.ofList_toList]

theorem not_isBlank_of_isDigit {c : Char} (h : c.isDigit = true) : isBlank c = false := by
  obtain ⟨hlow, hhigh⟩ := (Numeral.isDigit_iff c).1 h
  simp only [isBlank, Bool.or_eq_false_iff, Bool.and_eq_false_iff, decide_eq_false_iff_not,
    beq_eq_false_iff_ne]
  omega

theorem trim_decimal (n : Nat) : trim (Numeral.decimal n) = Numeral.decimal n :=
  trim_eq_self fun _ hc => not_isBlank_of_isDigit (Numeral.isDigit_of_mem_decimal hc)

theorem toLower_eq_self_or (c : Char) : c.toLower = c ∨ (0x41 ≤ c.toNat ∧ c.toNat ≤ 0x5A) := by
  delta Char.toLower
  split
  · next h => exact .inr h
  · exact .inl rfl

/-- A text that is equal, up to case, to one without blanks and without some mark has neither of
them. -/
theorem plain_of_eqIgnoreCase {s t : String} {mark : Char} (h : Ascii.eqIgnoreCase s t = true)
    (hmark : mark.toNat < 0x41)
    (ht : ∀ d ∈ t.toList.map Char.toLower, isBlank d = false ∧ d ≠ mark) {c : Char}
    (hc : c ∈ s.toList) : isBlank c = false ∧ c ≠ mark := by
  rw [Ascii.eqIgnoreCase, beq_iff_eq] at h
  have hlower : c.toLower ∈ t.toList.map Char.toLower := h ▸ List.mem_map_of_mem hc
  obtain hsame | ⟨hlow, hhigh⟩ := toLower_eq_self_or c
  · exact ht c (hsame ▸ hlower)
  · refine ⟨?_, fun heq => ?_⟩
    · simp only [isBlank, Bool.or_eq_false_iff, Bool.and_eq_false_iff, decide_eq_false_iff_not,
        beq_eq_false_iff_ne]
      omega
    · rw [heq] at hlow
      omega

end HttpExchange.Blank
