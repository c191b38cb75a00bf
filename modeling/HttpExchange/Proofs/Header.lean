import HttpExchange.Header

/-!
# Fields of a name

What the operations on header fields do to the fields of one name: to all of them (`every`), to the
first (`first?`) and to whether there is any (`has`).
-/

namespace HttpExchange.Headers

variable {name other : String}

/-! ### All fields of a name -/

theorem every_append (hs ks : Headers) (name : String) :
    every (hs ++ ks) name = hs.every name ++ ks.every name := by
  rw [every, every, every, List.filter_append, List.map_append]

theorem every_cons (h : Header) (hs : Headers) (name : String) :
    every (h :: hs) name = (if h.named name then [h.value] else []) ++ hs.every name := by
  rw [every, every, List.filter_cons]
  split <;> rfl

theorem every_nil (name : String) : every [] name = [] := rfl

theorem every_singleton (name value other : String) :
    every [⟨name, value⟩] other = if Ascii.eqIgnoreCase name other then [value] else [] := by
  rw [every_cons, every_nil, List.append_nil]
  rfl

/-- A field of one name is none of another. -/
theorem named_eq_false {h : Header} (hne : Ascii.eqIgnoreCase name other = false)
    (hnamed : h.named name = true) : h.named other = false := by
  rw [Header.named, Ascii.eqIgnoreCase, beq_iff_eq] at hnamed
  rw [Header.named, Ascii.eqIgnoreCase, hnamed]
  exact hne

/-- What keeps every field of a name keeps their values. -/
theorem every_filter {hs : Headers} {keep : Header → Bool}
    (h : ∀ field, field.named name = true → keep field = true) :
    every (hs.filter keep) name = hs.every name := by
  rw [every, every, List.filter_filter]
  congr 1
  refine List.filter_congr fun field _ => ?_
  cases hnamed : field.named name with
  | false => rfl
  | true =>
    rw [h field hnamed]
    rfl

theorem every_without_self (hs : Headers) (name : String) : (hs.without name).every name = [] := by
  simp [every, without, List.filter_filter]

/-- Taking off the fields of another name leaves those of this. -/
theorem every_without_of_ne (hs : Headers) (hne : Ascii.eqIgnoreCase name other = false) :
    (hs.without other).every name = hs.every name :=
  every_filter fun field hnamed => by rw [named_eq_false hne hnamed]; rfl

/-- Taking fields off brings none. -/
theorem every_without_eq_nil {hs : Headers} (h : hs.every name = []) (other : String) :
    (hs.without other).every name = [] := by
  rw [every, List.map_eq_nil_iff, List.filter_eq_nil_iff] at h ⊢
  exact fun field hfield => h field (List.mem_filter.1 hfield).1

/-! ### The first, and whether there is one -/

theorem first?_eq_head?_every (hs : Headers) (name : String) :
    hs.first? name = (hs.every name).head? := by
  rw [first?, every, List.head?_map, List.head?_filter]

/-- The value that decides is one of the values. -/
theorem mem_every_of_first? {hs : Headers} {value : String} (h : hs.first? name = some value) :
    value ∈ hs.every name := by
  rw [first?_eq_head?_every] at h
  exact List.mem_of_mem_head? h

theorem first?_append (hs ks : Headers) (name : String) :
    first? (hs ++ ks) name = (hs.first? name).or (ks.first? name) := by
  rw [first?, first?, first?, List.find?_append, Option.map_or]

theorem first?_singleton_self (name value : String) :
    first? [⟨name, value⟩] name = some value := by
  have hnamed : (Header.mk name value).named name = true := Ascii.eqIgnoreCase_refl name
  simp [first?, hnamed]

theorem first?_singleton_of_ne (h : Ascii.eqIgnoreCase name other = false)
    (value : String) : first? [⟨name, value⟩] other = none := by
  have hnamed : (Header.mk name value).named other = false := h
  simp [first?, hnamed]

theorem has_append (hs ks : Headers) (name : String) :
    has (hs ++ ks) name = (hs.has name || ks.has name) := by
  rw [has, has, has, first?_append, Option.isSome_or]

theorem has_eq_false_iff {hs : Headers} :
    hs.has name = false ↔ hs.first? name = none := by
  rw [has, Option.isSome_eq_false_iff, Option.isNone_iff_eq_none]

/-- What is done where there is a field of a name and what else. -/
theorem ite_has {α : Type} (hs : Headers) (name : String) (present absent : α) :
    (if hs.has name then present else absent) =
      if hs.first? name = none then absent else present := by
  rw [← ite_not]
  simp only [Bool.not_eq_true, has_eq_false_iff]

/-- Where there is no field of a name, none is taken away. -/
theorem without_eq_self {hs : Headers} (h : hs.has name = false) : hs.without name = hs := by
  rw [has_eq_false_iff, first?, Option.map_eq_none_iff, List.find?_eq_none] at h
  rw [without, List.filter_eq_self]
  intro f hf
  rw [Bool.not_eq_true', Bool.eq_false_iff]
  exact h f hf

end HttpExchange.Headers
