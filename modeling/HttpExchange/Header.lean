import HttpExchange.Text.Ascii

/-!
# Header fields

A message carries its fields in order; names are compared without regard to ASCII case and may
repeat.  `first?` is the value that decides, `replaced` keeps one field of a name.
-/

namespace HttpExchange

/-- One header field. -/
structure Header where
  name : String
  value : String
  deriving DecidableEq, Repr

namespace Header

/-- Whether the field has this name. -/
def named (h : Header) (name : String) : Bool := Ascii.eqIgnoreCase h.name name

end Header

/-- The fields of a message, in order. -/
abbrev Headers := List Header

namespace Headers

/-- The value of the first field of that name. -/
def first? (hs : Headers) (name : String) : Option String :=
  (hs.find? (·.named name)).map (·.value)

/-- The values of all fields of that name, in order. -/
def every (hs : Headers) (name : String) : List String :=
  (hs.filter (·.named name)).map (·.value)

/-- The fields without those of that name. -/
def without (hs : Headers) (name : String) : Headers := hs.filter (!·.named name)

/-- The fields with one more at the end. -/
def added (hs : Headers) (name value : String) : Headers := hs ++ [⟨name, value⟩]

/-- The fields with one of that name at the end, in place of any others. -/
def replaced (hs : Headers) (name value : String) : Headers := (hs.without name).added name value

/-- Whether there is a field of that name. -/
def has (hs : Headers) (name : String) : Bool := (hs.first? name).isSome

end Headers

end HttpExchange
