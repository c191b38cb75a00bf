/-!
# ASCII letters, compared without regard to case

Header names, list options and schemes are compared by their ASCII letters alone: `é` and `É`
stay different.
-/

namespace HttpExchange.Ascii

/-- The text with its ASCII capitals made small; every other character stays. -/
def lower (s : String) : String := String.ofList (s.toList.map Char.toLower)

/-- Equality up to the case of ASCII letters. -/
def eqIgnoreCase (s t : String) : Bool :=
  s.toList.map Char.toLower == t.toList.map Char.toLower

theorem eqIgnoreCase_refl (s : String) : eqIgnoreCase s s = true := by
  simp [eqIgnoreCase]

theorem eqIgnoreCase_comm (s t : String) : eqIgnoreCase s t = eqIgnoreCase t s := by
  simp only [eqIgnoreCase]
  exact Bool.eq_iff_iff.2 (by simp only [beq_iff_eq]; exact eq_comm)

/-- Whether `needle` occurs in `hay` as a run of consecutive characters. -/
def occursIn (needle : List Char) : List Char → Bool
  | [] => needle.isEmpty
  | c :: rest => needle.isPrefixOf (c :: rest) || occursIn needle rest

end HttpExchange.Ascii
