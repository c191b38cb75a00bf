import Mathlib.Data.List.DropRight
import HttpExchange.Proofs.Head.StartLine

/-!
# Field lines are read

A field is opened by one line and continued by others, until the empty line ends the head.

* `finish_segment_iff` — a value goes to the end of its line;
* `finish_lineStart_iff` — what a line may begin with;
* `finish_fields` — fields that are written are read;
* `exists_lines_of_finish` — and nothing else is.
-/

namespace HttpExchange.Head

namespace Reader

/-! ### Field lines -/

theorem rdropWhile_cons {α : Type} (p : α → Bool) (x : α) (xs : List α) :
    (x :: xs).rdropWhile p =
      if (xs.rdropWhile p).isEmpty && p x then [] else x :: xs.rdropWhile p := by
  rw [List.rdropWhile, List.reverse_cons, List.dropWhile_append, List.rdropWhile,
    List.isEmpty_reverse]
  cases hempty : (xs.reverse.dropWhile p).isEmpty with
  | false => simp
  | true =>
    rw [List.isEmpty_iff.1 hempty]
    cases hx : p x <;> simp [hx]

/-- The reader within a value of which these bytes have come, newest first: padding in front is not
kept. -/
def within (folding : Bool) (t : List UInt8) : Reader :=
  standing (if (t.rdropWhile Blank.isPadding).isEmpty then .valueStart else .value)
    (t.rdropWhile Blank.isPadding) folding

theorem phase_within (folding : Bool) (t : List UInt8) : (within folding t).phase ≠ .done := by
  rw [within, standing]
  show (if _ then _ else _) ≠ _
  split <;> decide

theorem accept_within {d : Draft} (folding : Bool) (t : List UInt8) {b : UInt8}
    (hb : isValueByte b = true) :
    (within folding t).accept d b = .ok (within folding (b :: t), d) := by
  have hcr : b ≠ cr := ne_of_class hb (by decide)
  have hlf : b ≠ lf := ne_of_class hb (by decide)
  have hline : isLineEnd b = false := by simp [isLineEnd, hcr, hlf]
  rw [within, within, rdropWhile_cons]
  cases hempty : (t.rdropWhile Blank.isPadding).isEmpty with
  | true =>
    rw [List.isEmpty_iff.1 hempty]
    cases hpad : Blank.isPadding b with
    | true => simp [accept, standing, hpad]
    | false =>
      have htab : b ≠ 0x09 := by
        rintro rfl
        cases hpad
      have hcontrol : isControl b = false := by simpa [isValueByte, htab] using hb
      simp [accept, standing, push, goto, hpad, hline, hcontrol]
  | false =>
    by_cases htab : b = 0x09
    · subst htab
      simp [accept, standing, push, hline]
    · have hcontrol : isControl b = false := by simpa [isValueByte, htab] using hb
      simp [accept, standing, push, hline, htab, hcontrol]

theorem accept_within_error {d : Draft} (folding : Bool) (t : List UInt8) {b : UInt8}
    (hb : isValueByte b = false) (hline : isLineEnd b = false) :
    (within folding t).accept d b = .error .field := by
  rw [isValueByte, Bool.or_eq_false_iff] at hb
  have htab : b ≠ 0x09 := by simpa using hb.1
  have hcontrol : isControl b = true := by simpa using hb.2
  have hpad : Blank.isPadding b = false := by
    have hspace : b ≠ 0x20 := by
      rintro rfl
      cases hcontrol
    simp [Blank.isPadding, htab, hspace]
  rw [within]
  split <;> simp [accept, standing, hline, htab, hcontrol, hpad]

/-- A line end stores the value, or joins it to the one before. -/
theorem accept_within_lineEnd {d : Draft} {h : Header} {older : List Header}
    (hfields : d.fields = h :: older) (folding : Bool) (raw : Bytes) {b : UInt8}
    (hb : isLineEnd b = true) :
    (within folding raw.reverse).accept d b =
      .ok (standing (if b = cr then .fieldLineEnd else .lineStart) [] false,
        { d with
          fields :=
            { h with
              value :=
                if folding then folded h.value (Utf8.decode (Blank.stripEnds Blank.isPadding raw))
                else Utf8.decode (Blank.stripEnds Blank.isPadding raw) } :: older }) := by
  have hstrip : ((raw.reverse.rdropWhile Blank.isPadding).dropWhile Blank.isPadding).reverse =
      Blank.stripEnds Blank.isPadding raw := by
    rw [List.rdropWhile_reverse]
    rfl
  have hpad : Blank.isPadding b = false := by
    rcases isLineEnd_iff.1 hb with rfl | rfl <;> decide
  rw [← hstrip, within]
  split
  · simp [accept, standing, finishValue, hb, hpad, hfields]
    rfl
  · simp [accept, standing, finishValue, hb, hfields]
    rfl

/-- **A value goes to the end of its line.** -/
theorem finish_segment_iff {d e : Draft} {h : Header} {older : List Header}
    (hfields : d.fields = h :: older) (folding : Bool) (input : Bytes) :
    (standing .valueStart [] folding).finish d input = some e ↔
      ∃ segment rest, input = Segment.bytes segment ++ rest ∧
        (standing .lineStart [] false).finish
          { d with
            fields :=
              { h with
                value :=
                  if folding then folded h.value segment.text else segment.text } :: older }
          rest = some e := by
  have hline : ∀ (d : Draft) (b : UInt8), (standing .fieldLineEnd [] false).accept d b =
      if b = lf then .ok (standing .lineStart [] false, d) else .error .field := by
    intro d b
    rfl
  show (within folding []).finish d input = some e ↔ _
  rw [finish_span (phase_within folding) (fun t b => accept_within folding t)]
  simp only [List.append_nil]
  constructor
  · intro h
    obtain ⟨raw, b, rest, rfl, hraw, hb, hfinish⟩ := h
    by_cases hend : isLineEnd b = true
    · rw [finish_cons_ok (phase_within _ _) (accept_within_lineEnd hfields folding raw hend)]
        at hfinish
      obtain ⟨lineEnd, rest', hinput, hfinish⟩ :=
        (finish_lineEnd_iff (by decide) (hline _) hend rest).1 hfinish
      refine ⟨⟨raw, hraw, lineEnd⟩, rest', ?_, hfinish⟩
      rw [Segment.bytes, List.append_assoc, ← hinput]
    · rw [finish_cons_error (accept_within_error folding _ hb (by simpa using hend))] at hfinish
      cases hfinish
  · intro h
    obtain ⟨⟨raw, hraw, lineEnd⟩, rest, rfl, hfinish⟩ := h
    obtain ⟨b, rest', hinput, hend⟩ := exists_lineEnd_cons lineEnd rest
    have hb : isValueByte b = false := by
      rcases isLineEnd_iff.1 hend with rfl | rfl <;> decide
    refine ⟨raw, b, rest', by rw [Segment.bytes, List.append_assoc, hinput], hraw, hb, ?_⟩
    rw [finish_cons_ok (phase_within _ _) (accept_within_lineEnd hfields folding raw hend)]
    exact (finish_lineEnd_iff (by decide) (hline _) hend rest').2
      ⟨lineEnd, rest, hinput.symm, hfinish⟩

end Reader

namespace Draft

/-- The draft with one more field, of which one line has been read. -/
def opened (d : Draft) (name : Bytes) (segment : Segment) : Draft :=
  { d with fields := ⟨Utf8.ascii name, segment.text⟩ :: d.fields }

/-- The draft with one more line of the field in front. -/
def continued (d : Draft) (fold : Fold) : Draft :=
  match d.fields with
  | [] => d
  | h :: older =>
    { d with fields := { h with value := Reader.folded h.value fold.segment.text } :: older }

/-- The draft with one more field. -/
def withField (d : Draft) (f : FieldForm) : Draft := { d with fields := f.header :: d.fields }

end Draft

namespace Reader

theorem finish_fieldName_iff {d e : Draft} (first : UInt8) (input : Bytes)
    (hfirst : isTokenByte first = true) :
    (standing .fieldName [first] false).finish d input = some e ↔
      ∃ name segment rest, first :: input = name ++ 0x3A :: (Segment.bytes segment ++ rest) ∧
        name ≠ [] ∧ (∀ b ∈ name, isTokenByte b = true) ∧
        (standing .lineStart [] false).finish (d.opened name segment) rest = some e := by
  have hpush : ∀ (t : List UInt8) (b : UInt8), isTokenByte b = true →
      (standing .fieldName t false).accept d b = .ok (standing .fieldName (b :: t) false, d) := by
    intro t b hb
    have hcolon : b ≠ 0x3A := ne_of_class hb (by decide)
    simp [accept, standing, push, hb, hcolon]
  have hend : ∀ name : Bytes, (∀ b ∈ name, isTokenByte b = true) →
      (standing .fieldName name.reverse false).accept d 0x3A =
        .ok (standing .valueStart [] false,
          { d with fields := ⟨Utf8.ascii name, ""⟩ :: d.fields }) := by
    intro name hname
    have hdecode := Utf8.decode_eq_ascii fun b hb => toNat_le_of_isTokenByte (hname b hb)
    simp [accept, standing, tokenText, take, hdecode]
  have hsegment : ∀ (name rest : Bytes),
      (standing .valueStart [] false).finish
          { d with fields := ⟨Utf8.ascii name, ""⟩ :: d.fields } rest = some e ↔
        ∃ segment rest', rest = Segment.bytes segment ++ rest' ∧
          (standing .lineStart [] false).finish (d.opened name segment) rest' = some e := by
    intro name rest
    exact finish_segment_iff (d := { d with fields := ⟨Utf8.ascii name, ""⟩ :: d.fields })
      (e := e) rfl false rest
  rw [finish_span (g := fun t => standing .fieldName t false) (fun t => Phase.noConfusion) hpush]
  constructor
  · intro h
    obtain ⟨run, b, rest, rfl, hrun, hb, hfinish⟩ := h
    have hname : ∀ x ∈ first :: run, isTokenByte x = true := List.forall_mem_cons.2 ⟨hfirst, hrun⟩
    rw [show run.reverse ++ [first] = (first :: run).reverse by simp] at hfinish
    by_cases hcolon : b = 0x3A
    · subst hcolon
      rw [finish_cons_ok Phase.noConfusion (hend _ hname), hsegment] at hfinish
      obtain ⟨segment, rest', rfl, hfinish⟩ := hfinish
      exact ⟨first :: run, segment, rest', rfl, List.cons_ne_nil _ _, hname, hfinish⟩
    · rw [finish_cons_error (f := .field) (by simp [accept, standing, hcolon, hb])] at hfinish
      cases hfinish
  · intro h
    obtain ⟨name, segment, rest, hinput, hempty, hname, hfinish⟩ := h
    obtain ⟨b, tail, rfl⟩ := List.exists_cons_of_ne_nil hempty
    rw [List.cons_append, List.cons.injEq] at hinput
    obtain ⟨rfl, rfl⟩ := hinput
    refine ⟨tail, 0x3A, _, rfl, fun x hx => hname x (List.mem_cons_of_mem _ hx), by decide, ?_⟩
    rw [show tail.reverse ++ [first] = (first :: tail).reverse by simp,
      finish_cons_ok Phase.noConfusion (hend _ hname), hsegment]
    exact ⟨segment, rest, rfl, hfinish⟩

/-- **The lines of a head.**  At the start of a line the head ends, or the field in front is
continued, or a field begins. -/
theorem finish_lineStart_iff {d e : Draft} (input : Bytes) :
    (standing .lineStart [] false).finish d input = some e ↔
      (∃ last : LineEnd, input = last.bytes ∧ d = e) ∨
      (∃ fold rest, input = Fold.bytes fold ++ rest ∧ d.fields ≠ [] ∧
        (standing .lineStart [] false).finish (d.continued fold) rest = some e) ∨
      (∃ name segment rest, input = name ++ 0x3A :: (Segment.bytes segment ++ rest) ∧
        name ≠ [] ∧ (∀ b ∈ name, isTokenByte b = true) ∧
        (standing .lineStart [] false).finish (d.opened name segment) rest = some e) := by
  have hclosing : ∀ (d : Draft) (b : UInt8), (standing .closing [] false).accept d b =
      if b = lf then .ok (standing .done [] false, d) else .error .field := by
    intro d b
    rfl
  have hend : ∀ b, isLineEnd b = true → (standing .lineStart [] false).accept d b =
      .ok (standing (if b = cr then .closing else .done) [] false, d) := by
    intro b hb
    rcases isLineEnd_iff.1 hb with rfl | rfl <;> rfl
  have hfold : ∀ b, Blank.isPadding b = true → d.fields ≠ [] →
      (standing .lineStart [] false).accept d b = .ok (standing .valueStart [] true, d) := by
    intro b hb hfields
    have hcr : b ≠ cr := ne_of_class hb (by decide)
    have hlf : b ≠ lf := ne_of_class hb (by decide)
    simp [accept, standing, hb, hcr, hlf, hfields]
  have hname : ∀ b, isTokenByte b = true →
      (standing .lineStart [] false).accept d b = .ok (standing .fieldName [b] false, d) := by
    intro b hb
    have hcr : b ≠ cr := ne_of_class hb (by decide)
    have hlf : b ≠ lf := ne_of_class hb (by decide)
    have hspace : b ≠ 0x20 := ne_of_class hb (by decide)
    have htab : b ≠ 0x09 := ne_of_class hb (by decide)
    simp [accept, standing, push, goto, Blank.isPadding, hb, hcr, hlf, hspace, htab]
  constructor
  · intro hfinish
    cases input with
    | nil => cases hfinish
    | cons b rest =>
      by_cases hline : isLineEnd b = true
      · rw [finish_cons_ok Phase.noConfusion (hend b hline)] at hfinish
        obtain ⟨last, rest', hinput, hdone⟩ :=
          (finish_lineEnd_iff (by decide) (hclosing d) hline rest).1 hfinish
        obtain ⟨rfl, rfl⟩ := (finish_of_done rfl).1 hdone
        exact .inl ⟨last, by rw [hinput, List.append_nil], rfl⟩
      · by_cases hpad : Blank.isPadding b = true
        · cases hfields : d.fields with
          | nil =>
            have hnone : (standing .lineStart [] false).accept d b = .error .field := by
              have hcr : b ≠ cr := ne_of_class hpad (by decide)
              have hlf : b ≠ lf := ne_of_class hpad (by decide)
              simp [accept, standing, hpad, hcr, hlf, hfields]
            rw [finish_cons_error hnone] at hfinish
            cases hfinish
          | cons h older =>
            rw [finish_cons_ok Phase.noConfusion (hfold b hpad (by simp [hfields]))] at hfinish
            obtain ⟨segment, rest', rfl, hrest⟩ := (finish_segment_iff hfields true rest).1 hfinish
            refine .inr (.inl ⟨⟨b, hpad, segment⟩, rest', rfl, by simp, ?_⟩)
            rw [Draft.continued, hfields]
            exact hrest
        · by_cases htoken : isTokenByte b = true
          · rw [finish_cons_ok Phase.noConfusion (hname b htoken)] at hfinish
            exact .inr (.inr ((finish_fieldName_iff b rest htoken).1 hfinish))
          · have hnone : (standing .lineStart [] false).accept d b = .error .field := by
              rw [isLineEnd_iff, not_or] at hline
              simp [accept, standing, hpad, hline.1, hline.2, htoken]
            rw [finish_cons_error hnone] at hfinish
            cases hfinish
  · rintro (⟨last, rfl, rfl⟩ | ⟨⟨pad, hpad, segment⟩, rest, rfl, hfields, hfinish⟩ |
      ⟨name, segment, rest, rfl, hempty, hclass, hfinish⟩)
    · obtain ⟨b, rest, hinput, hline⟩ := exists_lineEnd_cons last []
      rw [List.append_nil] at hinput
      rw [hinput, finish_cons_ok Phase.noConfusion (hend b hline)]
      exact (finish_lineEnd_iff (by decide) (hclosing d) hline rest).2
        ⟨last, [], by rw [List.append_nil, hinput], (finish_of_done rfl).2 ⟨rfl, rfl⟩⟩
    · obtain ⟨h, older, hcons⟩ := List.exists_cons_of_ne_nil hfields
      rw [Draft.continued, hcons] at hfinish
      rw [Fold.bytes, List.cons_append, finish_cons_ok Phase.noConfusion (hfold pad hpad hfields)]
      exact (finish_segment_iff hcons true _).2 ⟨segment, rest, rfl, hfinish⟩
    · obtain ⟨b, tail, rfl⟩ := List.exists_cons_of_ne_nil hempty
      have htoken : isTokenByte b = true := hclass b List.mem_cons_self
      rw [List.cons_append, finish_cons_ok Phase.noConfusion (hname b htoken)]
      exact (finish_fieldName_iff b _ htoken).2
        ⟨b :: tail, segment, rest, rfl, List.cons_ne_nil _ _, hclass, hfinish⟩

end Reader

/-! ### Fields -/

/-- Lines joined one after another are the lines that say something, with one space between them. -/
theorem foldl_folded (value : String) (lines : List String) :
    lines.foldl Reader.folded value =
      " ".intercalate ((value :: lines).filter (!·.isEmpty)) := by
  induction lines generalizing value with
  | nil =>
    by_cases hvalue : value.isEmpty = true
    · rw [String.isEmpty_iff] at hvalue
      simp [hvalue]
    · simp [hvalue]
  | cons line lines ih =>
    rw [List.foldl_cons, ih, Reader.folded]
    by_cases hline : line.isEmpty = true
    · simp [hline, List.filter_cons]
    · by_cases hvalue : value.isEmpty = true
      · simp [hline, hvalue]
      · simp [hline, hvalue, String.append_assoc]

namespace Draft

theorem foldl_continued {d : Draft} {h : Header} {older : List Header}
    (hfields : d.fields = h :: older) (folds : List Fold) :
    folds.foldl continued d =
      { d with
        fields :=
          { h with value := (folds.map (·.segment.text)).foldl Reader.folded h.value } :: older } := by
  induction folds generalizing d h with
  | nil => rw [List.map_nil, List.foldl_nil, List.foldl_nil, ← hfields]
  | cons fold folds ih =>
    rw [List.foldl_cons, ih (h := { h with value := Reader.folded h.value fold.segment.text })
      (by rw [continued, hfields])]
    rw [continued, hfields]
    rfl

/-- A field is opened by its first line and continued by the others. -/
theorem foldl_continued_opened (d : Draft) (f : FieldForm) :
    f.folds.foldl continued (d.opened f.name f.first) = d.withField f := by
  rw [foldl_continued rfl, foldl_folded, withField, FieldForm.header, FieldForm.value,
    FieldForm.segments, List.map_cons, List.map_map]
  rfl

end Draft

namespace Reader

/-- Lines that continue a field are taken one by one. -/
theorem finish_folds {d e : Draft} (folds : List Fold) (hfields : folds ≠ [] → d.fields ≠ [])
    {rest : Bytes}
    (h : (standing .lineStart [] false).finish (folds.foldl Draft.continued d) rest = some e) :
    (standing .lineStart [] false).finish d (folds.flatMap Fold.bytes ++ rest) = some e := by
  induction folds generalizing d with
  | nil => exact h
  | cons fold folds ih =>
    have hd : d.fields ≠ [] := hfields (List.cons_ne_nil _ _)
    refine (finish_lineStart_iff _).2 (.inr (.inl ⟨fold, _, ?_, hd, ih (fun _ => ?_) h⟩))
    · rw [List.flatMap_cons, List.append_assoc]
    · obtain ⟨h, older, hcons⟩ := List.exists_cons_of_ne_nil hd
      rw [Draft.continued, hcons]
      exact List.cons_ne_nil _ _

/-- Fields are taken one by one, up to the empty line. -/
theorem finish_fields (d : Draft) (fields : List FieldForm) (last : LineEnd) :
    (standing .lineStart [] false).finish d (fields.flatMap FieldForm.bytes ++ last.bytes) =
      some (fields.foldl Draft.withField d) := by
  induction fields generalizing d with
  | nil => exact (finish_lineStart_iff _).2 (.inl ⟨last, rfl, rfl⟩)
  | cons f fields ih =>
    have hfolds : (standing .lineStart [] false).finish (d.opened f.name f.first)
        (f.folds.flatMap Fold.bytes ++ (fields.flatMap FieldForm.bytes ++ last.bytes)) =
          some (fields.foldl Draft.withField (d.withField f)) := by
      refine finish_folds f.folds (fun _ => List.cons_ne_nil _ _) ?_
      rw [Draft.foldl_continued_opened]
      exact ih (d.withField f)
    refine (finish_lineStart_iff _).2 (.inr (.inr
      ⟨f.name, f.first, _, ?_, f.name_ne_nil, f.name_token, hfolds⟩))
    simp [FieldForm.bytes]

/-- The lines of a head are folds of the field that stands, then fields. -/
theorem exists_lines_of_finish {d e : Draft} {input : Bytes}
    (h : (standing .lineStart [] false).finish d input = some e) :
    ∃ (folds : List Fold) (fields : List FieldForm) (last : LineEnd),
      input = folds.flatMap Fold.bytes ++ (fields.flatMap FieldForm.bytes ++ last.bytes) ∧
      (d.fields = [] → folds = []) ∧
      fields.foldl Draft.withField (folds.foldl Draft.continued d) = e := by
  -- a line is shorter than what it begins, so the induction is on the length of the input
  induction hlength : input.length using Nat.strong_induction_on generalizing input d with
  | _ length ih =>
    rcases (finish_lineStart_iff input).1 h with ⟨last, rfl, rfl⟩ |
      ⟨fold, rest, rfl, hfields, hrest⟩ | ⟨name, segment, rest, rfl, hempty, hclass, hrest⟩
    · exact ⟨[], [], last, rfl, fun _ => rfl, rfl⟩
    · have hshorter : rest.length < length := by
        rw [← hlength, Fold.bytes, List.length_append, List.length_cons]
        omega
      obtain ⟨folds, fields, last, rfl, -, hdraft⟩ := ih rest.length hshorter hrest rfl
      refine ⟨fold :: folds, fields, last, ?_, fun h => absurd h hfields, hdraft⟩
      rw [List.flatMap_cons, List.append_assoc]
    · have hshorter : rest.length < length := by
        rw [← hlength, List.length_append, List.length_cons, List.length_append]
        omega
      obtain ⟨folds, fields, last, rfl, -, hdraft⟩ := ih rest.length hshorter hrest rfl
      refine ⟨[], ⟨name, hempty, hclass, segment, folds⟩ :: fields, last, ?_, fun _ => rfl, ?_⟩
      · simp [FieldForm.bytes]
      · rw [List.foldl_cons, List.foldl_nil, ← hdraft, ← Draft.foldl_continued_opened]

end Reader

end HttpExchange.Head
