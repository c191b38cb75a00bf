import HttpExchange.Proofs.Response.Received

/-!
# The lines of a written head

What stands in the names and values of a response is written as it is.  A client cuts the head at
its line ends and each line at its first colon, so a line end in a value may make a line of its own,
and a name with a colon may stand for another.

* `lines_headText` — with no line end in a field, the lines are the status line and one for each
  field;
* `Response.lengthLines` — the lines that a client takes for the length of the body;
* `lengthLines_eq` — if no field but one of that name reads like one, they are those of the fields
  of that name.
-/

namespace HttpExchange

/-- No line end is in the name of a field, and none in its value. -/
def Header.Unbroken (f : Header) : Prop :=
  Reply.Head.Unbroken f.name.toList ∧ Reply.Head.Unbroken f.value.toList

theorem Header.unbroken_of_ne_cr {f : Header} (hname : ∀ c ∈ f.name.toList, c ≠ '\r')
    (hvalue : ∀ c ∈ f.value.toList, c ≠ '\r') : f.Unbroken :=
  ⟨Reply.Head.unbroken_of_ne_cr hname, Reply.Head.unbroken_of_ne_cr hvalue⟩

theorem Header.named_length (value : String) :
    (Header.mk "Content-Length" value).named "Content-Length" = true :=
  Ascii.eqIgnoreCase_refl "Content-Length"

namespace Reply.Head

/-- Whether a line is read as a field with the name of the length. -/
def isLengthLine (line : List Char) : Bool := (field? line).any (·.named "Content-Length")

theorem not_isLengthLine_of_ne {line : List Char} (h : ∀ c ∈ line, c ≠ ':') :
    isLengthLine line = false := by
  have hnone : line.dropWhile (· != ':') = [] :=
    List.dropWhile_eq_nil_iff.2 fun c hc => bne_iff_ne.2 (h c hc)
  rw [isLengthLine, field?, hnone]
  rfl

theorem isLengthLine_of_named {f : Header} (h : f.named "Content-Length" = true) :
    isLengthLine (fieldLine f) = true := by
  have hplain : ∀ c ∈ f.name.toList, Blank.isBlank c = false ∧ c ≠ ':' := fun c hc =>
    Blank.plain_of_eqIgnoreCase h (by decide) (List.forall_iff_forall_mem.1 (by decide)) hc
  rw [isLengthLine, field?_fieldLine (fun c hc => (hplain c hc).2)
    (Blank.trim_eq_self fun c hc => (hplain c hc).1)]
  exact h

theorem unbroken_allLines {h : Head} (hstatus : ∀ c ∈ h.statusLine, c ≠ '\r')
    (hheaders : ∀ f ∈ h.headers, f.Unbroken) : ∀ line ∈ h.allLines, Unbroken line := by
  rw [allLines, List.forall_mem_cons]
  refine ⟨unbroken_of_ne_cr hstatus, fun line hline => ?_⟩
  obtain ⟨f, hf, rfl⟩ := List.mem_map.1 hline
  obtain ⟨hname, hvalue⟩ := hheaders f hf
  have hspaced : Unbroken ([] ++ ' ' :: f.value.toList) :=
    unbroken_nil.joined hvalue (by decide)
  exact hname.joined hspaced (by decide)

end Reply.Head

namespace Response

open Reply.Head (isLengthLine)

variable {r : Response}

/-- What holds of the fields of a response and of those that are added holds of all that are
sent. -/
theorem forall_mem_sentHeaders {P : Header → Prop} (hown : ∀ f ∈ r.headers, P f)
    (hlength : P ⟨"Content-Length", Numeral.decimal r.bodyLength⟩)
    (hclose : P ⟨"Connection", "close"⟩) : ∀ f ∈ r.sentHeaders, P f := by
  intro f hf
  rw [sentHeaders, List.mem_append, List.mem_append] at hf
  rcases hf with hf | hf | hf
  · exact hown f hf
  · rw [lengthField] at hf
    split at hf
    · rw [List.mem_singleton.1 hf]
      exact hlength
    · cases hf
  · rw [closeField] at hf
    split at hf
    · cases hf
    · rw [List.mem_singleton.1 hf]
      exact hclose

theorem ne_of_mem_statusLine {mark : Char} (hmark : mark = '\r' ∨ mark = ':') :
    ∀ c ∈ r.replyHead.statusLine, c ≠ mark := by
  have hversion : ∀ c ∈ "HTTP/1.1".toList, c ≠ '\r' ∧ c ≠ ':' :=
    List.all_iff_forall_prop.1 (by decide)
  have hreason : ∀ c ∈ r.status.reason.toList, c ≠ '\r' ∧ c ≠ ':' := by
    cases r.status <;> exact List.all_iff_forall_prop.1 (by decide)
  rcases hmark with rfl | rfl
  · exact Reply.Head.ne_of_mem_statusLine (by decide) (by decide) (fun c hc => (hversion c hc).1)
      fun c hc => (hreason c hc).1
  · exact Reply.Head.ne_of_mem_statusLine (by decide) (by decide) (fun c hc => (hversion c hc).2)
      fun c hc => (hreason c hc).2

theorem unbroken_length (r : Response) :
    (Header.mk "Content-Length" (Numeral.decimal r.bodyLength)).Unbroken := by
  have hname : ∀ c ∈ "Content-Length".toList, c ≠ '\r' := List.all_iff_forall_prop.1 (by decide)
  exact Header.unbroken_of_ne_cr hname fun c hc =>
    Reply.Head.isDigit_ne (Numeral.isDigit_of_mem_decimal hc) (by decide)

/-- **One line for each field**, behind the status line and in front of the empty line. -/
theorem lines_headText (hlines : ∀ f ∈ r.headers, f.Unbroken) :
    Reply.Head.lines r.headText.toList = r.replyHead.allLines ++ [[], []] := by
  have hclose : (Header.mk "Connection" "close").Unbroken :=
    Header.unbroken_of_ne_cr (List.all_iff_forall_prop.1 (by decide))
      (List.all_iff_forall_prop.1 (by decide))
  rw [toList_headText]
  exact Reply.Head.lines_allLines (Reply.Head.unbroken_allLines (ne_of_mem_statusLine (.inl rfl))
    (forall_mem_sentHeaders hlines r.unbroken_length hclose))

/-- The lines of the head that a client takes for the length of the body. -/
def lengthLines (r : Response) : List (List Char) :=
  (Reply.Head.lines r.headText.toList).filter isLengthLine

/-- **They are those of the fields of that name**, if no other field reads like one. -/
theorem lengthLines_eq (hlines : ∀ f ∈ r.headers, f.Unbroken)
    (hshown : ∀ f ∈ r.headers, isLengthLine (Reply.Head.fieldLine f) = true →
      f.named "Content-Length" = true) :
    r.lengthLines =
      (r.sentHeaders.filter (·.named "Content-Length")).map Reply.Head.fieldLine := by
  have hfields : ∀ f ∈ r.sentHeaders,
      isLengthLine (Reply.Head.fieldLine f) = f.named "Content-Length" := by
    refine forall_mem_sentHeaders (fun f hf => ?_) ?_ (by decide)
    · exact Bool.eq_iff_iff.2 ⟨hshown f hf, Reply.Head.isLengthLine_of_named⟩
    · rw [Header.named_length]
      exact Reply.Head.isLengthLine_of_named (Header.named_length _)
  have hstatus : isLengthLine r.replyHead.statusLine = false :=
    Reply.Head.not_isLengthLine_of_ne (ne_of_mem_statusLine (.inr rfl))
  have hends : ([[], []] : List (List Char)).filter isLengthLine = [] := by decide
  rw [lengthLines, lines_headText hlines, List.filter_append, hends, List.append_nil,
    Reply.Head.allLines, List.filter_cons_of_neg (Bool.eq_false_iff.1 hstatus), List.filter_map]
  exact congrArg _ (List.filter_congr hfields)

end Response

end HttpExchange
