import HttpExchange.Proofs.Head.FieldLines

/-!
# The reader accepts the grammar

A fresh reader finds a head exactly where a `HeadForm` has been written, and the request it has then
is the one the form says.

* `finish_iff_form` — the request line and the field lines put together;
* `feed_complete_iff` — and with the limit.
-/

namespace HttpExchange.Head

/-! ### The whole head -/

/-- The draft that a head of this form leaves. -/
def HeadForm.draft (h : HeadForm) : Draft :=
  { method := h.method
    target := Utf8.decode h.target
    version := Utf8.ascii (versionBytes h.major h.minor)
    fields := (h.fields.map FieldForm.header).reverse }

theorem HeadForm.request_draft (h : HeadForm) : h.draft.request = h.request := by
  rw [Draft.request, Draft.withBody, HeadForm.draft, List.reverse_reverse]
  rfl

theorem Draft.foldl_withField (d : Draft) (fields : List FieldForm) :
    fields.foldl Draft.withField d =
      { d with fields := (fields.map FieldForm.header).reverse ++ d.fields } := by
  induction fields generalizing d with
  | nil => rfl
  | cons f fields ih =>
    rw [List.foldl_cons, ih, List.map_cons, List.reverse_cons, List.append_assoc]
    rfl

namespace Reader

/-- **A fresh reader finishes the heads that have a form, and no others.** -/
theorem finish_iff_form (e : Draft) (input : Bytes) :
    (standing .start [] false).finish {} input = some e ↔
      ∃ h : HeadForm, h.bytes = input ∧ h.draft = e := by
  rw [finish_start_iff]
  simp only [finish_target_iff, finish_version_iff]
  constructor
  · intro h
    obtain ⟨lead, m, -, rfl, hlead, target, -, rfl, hempty, htarget, major, minor, lineEnd, rest,
      rfl, hmajor, hminor, hfinish⟩ := h
    obtain ⟨folds, fields, last, rfl, hfolds, rfl⟩ := exists_lines_of_finish hfinish
    obtain rfl : folds = [] := hfolds rfl
    refine ⟨⟨lead, hlead, m, target, hempty, htarget, major, hmajor, minor, hminor, lineEnd, fields,
      last⟩, rfl, ?_⟩
    rw [List.foldl_nil, Draft.foldl_withField, List.append_nil]
    rfl
  · intro h
    obtain ⟨h, rfl, rfl⟩ := h
    refine ⟨h.lead, h.method, _, rfl, h.lead_lineEnds, h.target, _, rfl, h.target_ne_nil,
      h.target_plain, h.major, h.minor, h.lineEnd, _, rfl, h.major_digit, h.minor_digit, ?_⟩
    rw [finish_fields, Draft.foldl_withField, List.append_nil]
    rfl

/-- When a fresh reader has found a head, and which. -/
theorem feed_complete_iff_form (limit n : Nat) (input : Bytes) (e : Draft) :
    (((ofLimit limit).feed {} input).verdict = .complete n ∧
        ((ofLimit limit).feed {} input).draft = e) ↔
      n ≤ limit ∧ ∃ h : HeadForm, h.bytes <+: input ∧ h.bytes.length = n ∧ h.draft = e := by
  have hstart : (ofLimit limit).phase ≠ .done := Phase.noConfusion
  have hiff := feedFrom_complete_iff hstart {} e 0 n input
  rw [Nat.zero_add] at hiff
  rw [feed_of_not_done hstart, hiff]
  have hfinish : (ofLimit limit).finish {} (input.take n) =
      (standing .start [] false).finish {} (input.take n) :=
    finish_counting (standing .start [] false) {} 0 limit _
  rw [hfinish, finish_iff_form]
  show n ≤ input.length ∧ 0 + n ≤ limit ∧ _ ↔ _
  rw [Nat.zero_add]
  constructor
  · intro h
    obtain ⟨hlength, hlimit, h, hbytes, hdraft⟩ := h
    refine ⟨hlimit, h, ?_, ?_, hdraft⟩
    · rw [hbytes]
      exact List.take_prefix n input
    · rw [hbytes, List.length_take_of_le hlength]
  · intro h
    obtain ⟨hlimit, h, hprefix, hlength, hdraft⟩ := h
    refine ⟨hlength ▸ hprefix.length_le, hlimit, h, ?_, hdraft⟩
    rw [← hlength]
    exact List.prefix_iff_eq_take.1 hprefix

/-- **The reader accepts exactly the grammar, and reads it exactly.**  Fed any bytes at once, a fresh
reader says that the head is complete after `n` of them, and has this request, if and only if they
begin with `n` bytes of a form that says this request and `n` is within the limit. -/
theorem feed_complete_iff (limit n : Nat) (input : Bytes) (request : Request) :
    (((ofLimit limit).feed {} input).verdict = .complete n ∧
        ((ofLimit limit).feed {} input).draft.request = request) ↔
      n ≤ limit ∧
        ∃ h : HeadForm, h.bytes <+: input ∧ h.bytes.length = n ∧ h.request = request := by
  constructor
  · intro h
    obtain ⟨hverdict, rfl⟩ := h
    obtain ⟨hlimit, h, hprefix, hlength, hdraft⟩ :=
      (feed_complete_iff_form limit n input _).1 ⟨hverdict, rfl⟩
    exact ⟨hlimit, h, hprefix, hlength, by rw [← hdraft, h.request_draft]⟩
  · intro h
    obtain ⟨hlimit, h, hprefix, hlength, rfl⟩ := h
    obtain ⟨hverdict, hdraft⟩ :=
      (feed_complete_iff_form limit n input h.draft).2 ⟨hlimit, h, hprefix, hlength, rfl⟩
    exact ⟨hverdict, by rw [hdraft, h.request_draft]⟩

end Reader

end HttpExchange.Head
