import HttpExchange.Proofs.Header
import HttpExchange.Proofs.Outgoing.Written
import HttpExchange.Proofs.Url.Plain

/-!
# The fields that a connection manages

A caller's fields are left out if they have the name of a field that the connection manages.  Only
whole names are compared, and no text is checked, so what is written may be read as something else:
a line end inside a text begins a new field, and a colon inside a name ends it.

* `Header.Contained` — the fields of which this is not so;
* `finish_line` — a line that is written is one line for the reader, whatever else it holds;
* `feedAll_managed` — if the caller's fields are such, a reader that accepts the request finds the
  managed fields as the connection has written them, and the body where it begins;
* `feedAll_managed_fails` — otherwise it may not.
-/

namespace HttpExchange

/-- What a reader takes for the name of a field: the part of it in front of its first colon. -/
def Header.stem (h : Header) : String := String.ofList (h.name.toList.takeWhile (· != ':'))

/-- A field that is written on one line, and whose name, as it is read, is not that of a field that
a connection manages. -/
@[mk_iff]
structure Header.Contained (h : Header) : Prop where
  name_line : '\n' ∉ h.name.toList
  value_line : '\n' ∉ h.value.toList
  stem_own : Outgoing.isManaged ⟨h.stem, h.value⟩ = false

instance (h : Header) : Decidable h.Contained := decidable_of_iff _ (Header.contained_iff h).symm

namespace Head

/-! ### Lines -/

/-- The first separators of equal texts stand at the same place. -/
theorem eq_of_first_separator {α : Type*} {sep : α} {x y s t : List α} (hx : sep ∉ x) (hy : sep ∉ y)
    (h : x ++ sep :: s = y ++ sep :: t) : x = y ∧ s = t := by
  induction x generalizing y with
  | nil =>
    cases y with
    | nil => exact ⟨rfl, (List.cons.inj h).2⟩
    | cons b y => exact absurd ((List.cons.inj h).1 ▸ List.mem_cons_self) hy
  | cons a x ih =>
    cases y with
    | nil => exact absurd ((List.cons.inj h).1 ▸ List.mem_cons_self) hx
    | cons b y =>
      obtain ⟨rfl, hrest⟩ := List.cons.inj h
      obtain ⟨rfl, hst⟩ := ih (fun hmem => hx (List.mem_cons_of_mem a hmem))
        (fun hmem => hy (List.mem_cons_of_mem a hmem)) hrest
      exact ⟨rfl, hst⟩

/-- A line end without its LF. -/
def LineEnd.mark : LineEnd → Bytes
  | crlf => [Head.cr]
  | lf => []

theorem LineEnd.bytes_eq (lineEnd : LineEnd) : lineEnd.bytes = lineEnd.mark ++ [Head.lf] := by
  cases lineEnd <;> rfl

theorem LineEnd.lf_notMem_mark (lineEnd : LineEnd) : Head.lf ∉ lineEnd.mark := by
  cases lineEnd <;> decide

/-- A segment without the LF at its end. -/
def Segment.content (s : Segment) : Bytes := s.raw ++ s.lineEnd.mark

theorem Segment.bytes_eq (s : Segment) : s.bytes = s.content ++ [lf] := by
  rw [Segment.bytes, s.lineEnd.bytes_eq, content, List.append_assoc]

theorem Segment.lf_notMem_content (s : Segment) : lf ∉ s.content := by
  intro hmem
  rcases List.mem_append.1 hmem with hraw | hmark
  · exact absurd (s.plain lf hraw) (by decide)
  · exact s.lineEnd.lf_notMem_mark hmark

/-- What a segment says that is written as a space, a text and a CR. -/
theorem Segment.text_of_content (segment : Segment) {value : String}
    (hhead : ∀ c ∈ value.toList.head?, ¬IsPad c) (hlast : ∀ c ∈ value.toList.getLast?, ¬IsPad c)
    (hcontent : segment.content = 0x20 :: (Utf8.encode value ++ [cr])) : segment.text = value := by
  have hraw : segment.raw = 0x20 :: Utf8.encode value := by
    obtain ⟨raw, hplain, lineEnd⟩ := segment
    rw [content, ← List.cons_append] at hcontent
    cases lineEnd with
    | crlf => exact List.append_cancel_right hcontent
    | lf =>
      have hcr : cr ∈ raw := by
        rw [show raw = _ from (List.append_nil raw).symm.trans hcontent]
        exact List.mem_append_right _ List.mem_cons_self
      exact absurd (hplain cr hcr) (by decide)
  rw [text, hraw, Blank.stripEnds_cons (by decide), stripEnds_encode hhead hlast,
    Utf8.decode_encode]

theorem lf_notMem_encode {s : String} (h : '\n' ∉ s.toList) : lf ∉ Utf8.encode s := by
  intro hmem
  obtain ⟨c, hc, heq⟩ := (Utf8.mem_encode_iff (by decide)).1 hmem
  obtain rfl : c = '\n' := Char.toNat_inj.1 heq
  exact h hc

end Head

namespace Outgoing

open Head

/-- The line of a field without the LF at its end. -/
def lineContent (h : Header) : Bytes :=
  Utf8.encode h.name ++ 0x3A :: 0x20 :: (Utf8.encode h.value ++ [cr])

theorem encode_line (h : Header) : Utf8.encode (line h) = lineContent h ++ [lf] := by
  simp only [line, lineContent, Utf8.encode_append, List.append_assoc, List.cons_append]
  rfl

theorem lf_notMem_lineContent {h : Header} (hname : '\n' ∉ h.name.toList)
    (hvalue : '\n' ∉ h.value.toList) : lf ∉ lineContent h := by
  have hname := lf_notMem_encode hname
  have hvalue := lf_notMem_encode hvalue
  simp only [lineContent, List.mem_append, List.mem_cons, not_or]
  exact ⟨hname, by decide, by decide, hvalue, by decide, List.not_mem_nil⟩

theorem colon_notMem_stem (h : Header) : (0x3A : UInt8) ∉ Utf8.encode h.stem := by
  intro hmem
  obtain ⟨c, hc, heq⟩ := (Utf8.mem_encode_iff (by decide)).1 hmem
  obtain rfl : c = ':' := Char.toNat_inj.1 heq
  rw [Header.stem, String.toList_ofList] at hc
  exact absurd (List.mem_takeWhile_imp hc) (by decide)

theorem stem_of_no_colon {h : Header} (hcolon : ':' ∉ h.name.toList) : h.stem = h.name := by
  rw [Header.stem, List.takeWhile_eq_self_iff.2, String.ofList_toList]
  intro c hc
  rw [bne_iff_ne]
  rintro rfl
  exact hcolon hc

/-- The first colon of a line stands behind the stem of the name. -/
theorem exists_lineContent_stem (h : Header) :
    ∃ rest, lineContent h = Utf8.encode h.stem ++ 0x3A :: rest := by
  have hname : h.name = h.stem ++ String.ofList (h.name.toList.dropWhile (· != ':')) := by
    rw [Header.stem, ← String.ofList_append, List.takeWhile_append_dropWhile, String.ofList_toList]
  cases hrest : h.name.toList.dropWhile (· != ':') with
  | nil =>
    rw [hrest, String.ofList_nil, String.append_empty] at hname
    rw [lineContent, hname]
    exact ⟨_, rfl⟩
  | cons c cs =>
    have hcolon : c = ':' := by
      have hhead := List.head?_dropWhile_not (· != ':') h.name.toList
      rw [hrest] at hhead
      simpa using hhead
    rw [hrest, hcolon, ← List.singleton_append, String.ofList_append] at hname
    rw [lineContent, hname]
    simp only [Utf8.encode_append, List.append_assoc]
    exact ⟨_, rfl⟩

/-- **A line that is written is one line for the reader.**  It never ends the head, and either
continues the field in front or begins one, of which the name is the stem. -/
theorem finish_line {h : Header} (hname : '\n' ∉ h.name.toList) (hvalue : '\n' ∉ h.value.toList)
    {d e : Draft} {input after tail : Bytes}
    (hinput : input ++ after = lineContent h ++ lf :: tail)
    (hfinish : (Reader.standing .lineStart [] false).finish d input = some e) :
    (∃ (fold : Fold) (rest : Bytes), lineContent h = fold.pad :: fold.segment.content ∧
      d.fields ≠ [] ∧ rest ++ after = tail ∧
      (Reader.standing .lineStart [] false).finish (d.continued fold) rest = some e) ∨
    (∃ (segment : Segment) (rest : Bytes),
      lineContent h = Utf8.encode h.stem ++ 0x3A :: segment.content ∧ rest ++ after = tail ∧
      (Reader.standing .lineStart [] false).finish
        { d with fields := ⟨h.stem, segment.text⟩ :: d.fields } rest = some e) := by
  have hline : lf ∉ lineContent h := lf_notMem_lineContent hname hvalue
  rcases (Reader.finish_lineStart_iff input).1 hfinish with ⟨last, rfl, -⟩ |
    ⟨fold, rest, rfl, hfields, hrest⟩ | ⟨name, segment, rest, rfl, -, hclass, hrest⟩
  · -- an empty line has no colon
    rw [last.bytes_eq, List.append_assoc, List.singleton_append] at hinput
    obtain ⟨hcontent, -⟩ := eq_of_first_separator last.lf_notMem_mark hline hinput
    have hcolon : (0x3A : UInt8) ∈ last.mark := by
      rw [hcontent, lineContent]
      exact List.mem_append_right _ List.mem_cons_self
    cases last <;> exact absurd hcolon (by decide)
  · left
    have hpad : lf ∉ fold.pad :: fold.segment.content := by
      rw [List.mem_cons, not_or]
      exact ⟨fun heq => absurd (heq ▸ fold.padding) (by decide), fold.segment.lf_notMem_content⟩
    rw [Fold.bytes, fold.segment.bytes_eq, ← List.cons_append, List.append_assoc,
      List.append_assoc, List.singleton_append] at hinput
    obtain ⟨hcontent, htail⟩ := eq_of_first_separator hpad hline hinput
    exact ⟨fold, rest, hcontent.symm, hfields, htail, hrest⟩
  · right
    have hclean : lf ∉ name ++ 0x3A :: segment.content := by
      rw [List.mem_append, List.mem_cons, not_or, not_or]
      exact ⟨fun hmem => absurd (hclass lf hmem) (by decide), by decide,
        segment.lf_notMem_content⟩
    rw [segment.bytes_eq, List.append_assoc, List.cons_append, List.append_assoc,
      List.append_assoc, List.singleton_append, ← List.cons_append, ← List.append_assoc] at hinput
    obtain ⟨hcontent, htail⟩ := eq_of_first_separator hclean hline hinput
    obtain ⟨written, hwritten⟩ := exists_lineContent_stem h
    have hcolon : (0x3A : UInt8) ∉ name := fun hmem => absurd (hclass _ hmem) (by decide)
    obtain ⟨hstem, -⟩ :=
      eq_of_first_separator hcolon (colon_notMem_stem h) (hcontent.trans hwritten)
    rw [hstem] at hcontent hclass hrest
    have hascii : Utf8.ascii (Utf8.encode h.stem) = h.stem := by
      rw [← Utf8.decode_eq_ascii fun b hb => toNat_le_of_isTokenByte (hclass b hb),
        Utf8.decode_encode]
    refine ⟨segment, rest, hcontent.symm, htail, ?_⟩
    rw [Draft.opened, hascii] at hrest
    exact hrest

/-! ### The fields -/

/-- The fields that have been read: `Host`, and then such as no connection manages. -/
def HostFirst (d : Draft) : Prop :=
  ∃ own value, d.fields = own ++ [⟨"Host", value⟩] ∧ ∀ h ∈ own, isManaged h = false

theorem HostFirst.continued {d : Draft} (h : HostFirst d) (fold : Fold) :
    HostFirst (d.continued fold) := by
  obtain ⟨own, value, hfields, hown⟩ := h
  cases own with
  | nil => exact ⟨[], _, by rw [Draft.continued, hfields]; rfl, hown⟩
  | cons first own =>
    obtain ⟨hfirst, hown⟩ := List.forall_mem_cons.1 hown
    refine ⟨⟨first.name, Reader.folded first.value fold.segment.text⟩ :: own, value, ?_,
      List.forall_mem_cons.2 ⟨hfirst, hown⟩⟩
    rw [Draft.continued, hfields]
    rfl

/-- **The caller's fields are read as fields that no connection manages**, or as part of the value
of the field in front. -/
theorem finish_own {hs : Headers} (hclean : ∀ h ∈ hs, h.Contained) {d e : Draft}
    (hd : HostFirst d) {input after tail : Bytes}
    (hinput : input ++ after = Utf8.encode (String.join (hs.map line)) ++ tail)
    (hfinish : (Reader.standing .lineStart [] false).finish d input = some e) :
    ∃ d' input', HostFirst d' ∧ input' ++ after = tail ∧
      (Reader.standing .lineStart [] false).finish d' input' = some e := by
  induction hs generalizing d input with
  | nil => exact ⟨d, input, hd, hinput, hfinish⟩
  | cons h hs ih =>
    obtain ⟨hh, hhs⟩ := List.forall_mem_cons.1 hclean
    rw [List.map_cons, String.join_cons, Utf8.encode_append, encode_line, List.append_assoc,
      List.append_assoc, List.singleton_append] at hinput
    rcases finish_line hh.name_line hh.value_line hinput hfinish with
      ⟨fold, rest, -, -, hrest, hfinish⟩ | ⟨segment, rest, -, hrest, hfinish⟩
    · exact ih hhs (hd.continued fold) hrest hfinish
    · refine ih hhs ?_ hrest hfinish
      obtain ⟨own, value, hfields, hown⟩ := hd
      exact ⟨⟨h.stem, segment.text⟩ :: own, value, by rw [hfields]; rfl,
        List.forall_mem_cons.2 ⟨hh.stem_own, hown⟩⟩

/-- The first line begins a field. -/
theorem finish_host {value : String} (hvalue : '\n' ∉ value.toList) {d e : Draft}
    (hd : d.fields = []) {input after tail : Bytes}
    (hinput : input ++ after = Utf8.encode (line ⟨"Host", value⟩) ++ tail)
    (hfinish : (Reader.standing .lineStart [] false).finish d input = some e) :
    ∃ d' input', HostFirst d' ∧ input' ++ after = tail ∧
      (Reader.standing .lineStart [] false).finish d' input' = some e := by
  have hname : '\n' ∉ "Host".toList ∧ ':' ∉ "Host".toList := by decide
  rw [encode_line, List.append_assoc, List.singleton_append] at hinput
  rcases finish_line (h := ⟨"Host", value⟩) hname.1 hvalue hinput hfinish with
    ⟨fold, rest, -, hfields, -, -⟩ | ⟨segment, rest, -, hrest, hfinish⟩
  · exact absurd hd hfields
  · refine ⟨_, rest, ⟨[], segment.text, ?_, by simp⟩, hrest, hfinish⟩
    rw [hd, stem_of_no_colon hname.2]
    rfl

/-- The line of the length begins a field, and says the length. -/
theorem finish_length {n : Nat} {d e : Draft} {input after tail : Bytes}
    (hinput : input ++ after =
      Utf8.encode (line ⟨"Content-Length", Numeral.decimal n⟩) ++ tail)
    (hfinish : (Reader.standing .lineStart [] false).finish d input = some e) :
    ∃ input', input' ++ after = tail ∧
      (Reader.standing .lineStart [] false).finish
        { d with fields := ⟨"Content-Length", Numeral.decimal n⟩ :: d.fields } input' = some e := by
  have hname : '\n' ∉ "Content-Length".toList ∧ ':' ∉ "Content-Length".toList := by decide
  have hdigits : '\n' ∉ (Numeral.decimal n).toList := fun hmem =>
    isPlain_decimal n '\n' hmem (by decide)
  have hwritable := writable_length n
  rw [encode_line, List.append_assoc, List.singleton_append] at hinput
  rcases finish_line (h := ⟨"Content-Length", Numeral.decimal n⟩) hname.1 hdigits hinput hfinish
    with ⟨fold, rest, hcontent, -, -, -⟩ | ⟨segment, rest, hcontent, hrest, hfinish⟩
  · -- a fold begins with padding, and this line with a letter
    obtain ⟨letters, hletters⟩ : ∃ letters, Utf8.encode "Content-Length" = 0x43 :: letters :=
      ⟨_, rfl⟩
    simp only [lineContent, hletters, List.cons_append] at hcontent
    exact absurd ((List.cons.inj hcontent).1 ▸ fold.padding) (by decide)
  · refine ⟨rest, hrest, ?_⟩
    simp only [stem_of_no_colon (h := ⟨"Content-Length", Numeral.decimal n⟩) hname.2, lineContent]
      at hcontent hfinish
    have hvalue := (List.cons.inj (List.append_cancel_left hcontent)).2
    rw [segment.text_of_content hwritable.value_head hwritable.value_last hvalue.symm] at hfinish
    exact hfinish

/-- The empty line ends the head, and what follows it is the body. -/
theorem finish_close {d e : Draft} {input after body : Bytes}
    (hinput : input ++ after = cr :: lf :: body)
    (hfinish : (Reader.standing .lineStart [] false).finish d input = some e) :
    d = e ∧ after = body := by
  rcases (Reader.finish_lineStart_iff input).1 hfinish with ⟨last, rfl, hd⟩ |
    ⟨fold, rest, rfl, -, -⟩ | ⟨name, segment, rest, rfl, hempty, hclass, -⟩
  · cases last with
    | crlf => exact ⟨hd, (List.cons.inj (List.cons.inj hinput).2).2⟩
    | lf => exact absurd (List.cons.inj hinput).1 (by decide)
  · exact absurd ((List.cons.inj hinput).1 ▸ fold.padding) (by decide)
  · obtain ⟨first, others, rfl⟩ := List.exists_cons_of_ne_nil hempty
    exact absurd ((List.cons.inj hinput).1 ▸ hclass first List.mem_cons_self) (by decide)

/-! ### The whole request -/

/-- The request line that is written is one line for the reader. -/
theorem finish_requestLine {m : Method} {target : String} (htarget : '\n' ∉ target.toList)
    {e : Draft} {input after tail : Bytes}
    (hinput : input ++ after = Utf8.encode (m.name ++ " " ++ target ++ " HTTP/1.1\r\n") ++ tail)
    (hfinish : (Reader.standing .start [] false).finish {} input = some e) :
    ∃ d rest, d.fields = [] ∧ rest ++ after = tail ∧
      (Reader.standing .lineStart [] false).finish d rest = some e := by
  obtain ⟨lead, m', rest₁, rfl, hlead, hfinish⟩ := (Reader.finish_start_iff _).1 hfinish
  obtain ⟨target', rest₂, rfl, -, hclass, hfinish⟩ := (Reader.finish_target_iff _).1 hfinish
  obtain ⟨major, minor, lineEnd, rest, rfl, hmajor, hminor, hfinish⟩ :=
    (Reader.finish_version_iff _).1 hfinish
  refine ⟨_, rest, rfl, ?_, hfinish⟩
  have hlf : ∀ m : Method, lf ∉ Utf8.encode m.name := by
    intro m hmem
    obtain ⟨b, tail, hname, -, htoken⟩ := Reader.exists_name_bytes m
    exact absurd (htoken lf (hname ▸ hmem)) (by decide)
  -- the line that is written, without its LF
  let written := Utf8.encode m.name ++ 0x20 :: (Utf8.encode target ++ Utf8.encode " HTTP/1.1\r")
  have hwritten : Utf8.encode (m.name ++ " " ++ target ++ " HTTP/1.1\r\n") = written ++ [lf] := by
    simp only [written, Utf8.encode_append, List.append_assoc, List.cons_append]
    rfl
  have hwritten_lf : lf ∉ written := by
    simp only [written, List.mem_append, List.mem_cons, not_or]
    exact ⟨hlf m, by decide, lf_notMem_encode htarget, by decide⟩
  -- and the one that is read
  obtain rfl : lead = [] := by
    cases lead with
    | nil => rfl
    | cons b lead =>
      obtain ⟨first, others, hname, hfirst, -⟩ := Reader.exists_name_bytes m
      rw [hwritten] at hinput
      simp only [written, hname, List.cons_append] at hinput
      rw [← (List.cons.inj hinput).1, hlead b List.mem_cons_self] at hfirst
      cases hfirst
  let read := Utf8.encode m'.name ++ 0x20 :: (target' ++ 0x20 ::
    (versionBytes major minor ++ lineEnd.mark))
  have hread_lf : lf ∉ read := by
    simp only [read, List.mem_append, List.mem_cons, not_or]
    refine ⟨hlf m', by decide, fun hmem => ?_, by decide, fun hmem => ?_, lineEnd.lf_notMem_mark⟩
    · exact absurd (hclass lf hmem) (by decide)
    · exact absurd (Reader.not_isLineEnd_of_mem_versionBytes hmajor hminor lf hmem) (by decide)
  have hlines : read ++ lf :: (rest ++ after) = written ++ lf :: tail := by
    rw [hwritten, lineEnd.bytes_eq] at hinput
    simpa only [read, List.nil_append, List.append_assoc, List.cons_append] using hinput
  exact (eq_of_first_separator hread_lf hwritten_lf hlines).2

/-- **What a reader makes of a request.**  If the caller's fields are contained, every head that
finishes has `Host`, then fields that no connection manages, then the length where it is declared;
and what follows it is the body. -/
theorem finish_managed {viaProxy : Bool} {r : Outgoing} {host : String} {e : Draft}
    {input after : Bytes} (htarget : '\n' ∉ (r.target viaProxy).toList)
    (hhost : '\n' ∉ host.toList)
    (hclean : ∀ h ∈ r.headers, isManaged h = false → h.Contained)
    (hinput : input ++ after = Utf8.encode (r.headText viaProxy host) ++ r.body)
    (hfinish : (Reader.standing .start [] false).finish {} input = some e) :
    after = r.body ∧ ∃ own value,
      e.fields =
        (if r.declaresLength then [⟨"Content-Length", Numeral.decimal r.body.length⟩] else []) ++
          (own ++ [⟨"Host", value⟩]) ∧
      ∀ h ∈ own, isManaged h = false := by
  let length : Headers :=
    if r.declaresLength then [⟨"Content-Length", Numeral.decimal r.body.length⟩] else []
  let ends := Utf8.encode (String.join (length.map line)) ++ cr :: lf :: r.body
  have htext : Utf8.encode (r.headText viaProxy host) ++ r.body =
      Utf8.encode (r.method.name ++ " " ++ r.target viaProxy ++ " HTTP/1.1\r\n") ++
        (Utf8.encode (line ⟨"Host", host⟩) ++
          (Utf8.encode (String.join ((r.headers.filter (!isManaged ·)).map line)) ++ ends)) := by
    have hline : Utf8.encode "\r\n" = [cr, lf] := rfl
    simp only [headText, sentHeaders, ends, length, List.cons_append, List.map_cons,
      List.map_append, String.join_cons, String.join_append, Utf8.encode_append, hline,
      List.append_assoc, List.nil_append]
  rw [htext] at hinput
  have hown : ∀ h ∈ r.headers.filter (!isManaged ·), h.Contained := by
    intro h hh
    obtain ⟨hmem, hkept⟩ := List.mem_filter.1 hh
    exact hclean h hmem (by simpa using hkept)
  obtain ⟨d₁, rest₁, hd₁, hrest₁, hfinish⟩ := finish_requestLine htarget hinput hfinish
  obtain ⟨d₂, rest₂, hd₂, hrest₂, hfinish⟩ := finish_host hhost hd₁ hrest₁ hfinish
  obtain ⟨d₃, rest₃, ⟨own, value, hfields, hmanaged⟩, hrest₃, hfinish⟩ :=
    finish_own hown hd₂ hrest₂ hfinish
  simp only [ends, length] at hrest₃
  split at hrest₃
  · next hdeclares =>
    rw [List.map_singleton, String.join_cons, String.join_nil, String.append_empty] at hrest₃
    obtain ⟨rest₄, hrest₄, hfinish⟩ := finish_length hrest₃ hfinish
    obtain ⟨rfl, hafter⟩ := finish_close hrest₄ hfinish
    exact ⟨hafter, own, value, by rw [if_pos hdeclares, hfields]; rfl, hmanaged⟩
  · next hdeclares =>
    obtain ⟨rfl, hafter⟩ := finish_close hrest₃ hfinish
    exact ⟨hafter, own, value, by rw [if_neg hdeclares, hfields]; rfl, hmanaged⟩

/-! ### Of each name -/

/-- Fields that no connection manages are of no managed name. -/
theorem every_eq_nil_of_own {own : Headers} (hown : ∀ h ∈ own, isManaged h = false)
    {name : String} (hname : name ∈ managed) : own.every name = [] := by
  rw [Headers.every, List.map_eq_nil_iff, List.filter_eq_nil_iff]
  intro h hmem hnamed
  have hmanaged : isManaged h = true := List.any_eq_true.2 ⟨name, hname, hnamed⟩
  rw [hown h hmem] at hmanaged
  cases hmanaged

section Names

variable {r : Outgoing} {request : Request} {own : Headers} {value : String}

/-- The fields of a managed name among those that are read. -/
theorem every_of_managed (hown : ∀ h ∈ own, isManaged h = false)
    (hheaders : request.headers = ⟨"Host", value⟩ :: own ++
      if r.declaresLength then [⟨"Content-Length", Numeral.decimal r.body.length⟩] else [])
    {name : String} (hname : name ∈ managed) :
    request.headers.every name =
      (if Ascii.eqIgnoreCase "Host" name then [value] else []) ++
        if Ascii.eqIgnoreCase "Content-Length" name && r.declaresLength then
          [Numeral.decimal r.body.length]
        else [] := by
  rw [hheaders, List.cons_append, ← List.singleton_append, Headers.every_append,
    Headers.every_append, every_eq_nil_of_own hown hname, List.nil_append, Headers.every_singleton]
  cases r.declaresLength with
  | true => simp only [if_true, Bool.and_true, Headers.every_singleton]
  | false => simp only [Bool.false_eq_true, if_false, Bool.and_false, Headers.every_nil]

/-- One `Host`, the length where it is declared, and no field of the other managed names. -/
theorem managed_of_headers (hown : ∀ h ∈ own, isManaged h = false)
    (hheaders : request.headers = ⟨"Host", value⟩ :: own ++
      if r.declaresLength then [⟨"Content-Length", Numeral.decimal r.body.length⟩] else [])
    (hlength : r.body.length < Numeral.lengthBound) :
    (request.headers.every "Host").length = 1 ∧
      request.headers.every "Content-Length" =
        (if r.declaresLength then [Numeral.decimal r.body.length] else []) ∧
      request.contentLength? = (if r.declaresLength then some (.ok r.body.length) else none) ∧
      request.headers.every "Transfer-Encoding" = [] ∧
      request.headers.every "Connection" = [] ∧
      request.headers.every "Proxy-Connection" = [] := by
  have hdeclared : request.headers.every "Content-Length" =
      if r.declaresLength then [Numeral.decimal r.body.length] else [] := by
    have hself := Ascii.eqIgnoreCase_refl "Content-Length"
    rw [every_of_managed hown hheaders (by decide), if_neg (by decide), List.nil_append, hself,
      Bool.true_and]
  have hother : ∀ {name}, name ∈ managed → Ascii.eqIgnoreCase "Host" name = false →
      Ascii.eqIgnoreCase "Content-Length" name = false → request.headers.every name = [] := by
    intro name hname hhost hlength
    rw [every_of_managed hown hheaders hname, hhost, hlength, Bool.false_and]
    rfl
  refine ⟨?_, hdeclared, ?_, hother (by decide) (by decide) (by decide),
    hother (by decide) (by decide) (by decide), hother (by decide) (by decide) (by decide)⟩
  · have hne : Ascii.eqIgnoreCase "Content-Length" "Host" = false := by decide
    rw [every_of_managed hown hheaders (by decide), if_pos (by decide), hne, Bool.false_and]
    rfl
  · rw [Request.contentLength?, Headers.first?_eq_head?_every, hdeclared]
    split
    · rw [List.head?_cons, Option.map_some, lengthOf_decimal hlength]
    · rfl

end Names

/-- A reader that is fed a head of writable fields, and more, has them. -/
theorem exists_verdict_of_writable (m : Method) (target : String) (hempty : target ≠ "")
    (htarget : ∀ c ∈ target.toList, c ≠ ' ' ∧ ¬IsControl c) {hs : Headers}
    (hw : ∀ h ∈ hs, h.Writable) (body : Bytes) (limit : Nat)
    (hlimit : (Utf8.encode (headOf m target hs)).length ≤ limit) :
    let p := (Head.Reader.ofLimit limit).feedAll {} [Utf8.encode (headOf m target hs) ++ body]
    ∃ n, p.verdict = .complete n ∧ p.draft.request =
      { method := m, target := target, version := "HTTP/1.1", headers := hs, body := [] } := by
  intro p
  obtain ⟨form, hbytes, hrequest⟩ := exists_form_of_writable m hempty htarget hw
  have hp : p = (Head.Reader.ofLimit limit).feed {} (form.bytes ++ body) := by
    rw [hbytes, ← List.flatten_singleton (l := Utf8.encode (headOf m target hs) ++ body)]
    exact Reader.feedAll_eq_feed _ _ Phase.noConfusion _
  refine ⟨form.bytes.length, ?_⟩
  rw [hp, Reader.feed_complete_iff]
  exact ⟨by rwa [hbytes], form, List.prefix_append _ _, rfl, hrequest⟩

/-- **The managed fields of a request are the connection's own.**  Let no field that the caller gives
hold a line feed, and let no name begin with a managed name and a colon.  If a reader, under any
limit and fed in any pieces, accepts the request that is written, it has one `Host`, one
`Content-Length` with the length of the body where it is declared and none where it is not, no
`Transfer-Encoding`, no `Connection` and no `Proxy-Connection`; and what it has not taken is the
body. -/
theorem feedAll_managed {viaProxy : Bool} {r : Outgoing} (hurl : r.url.Readable)
    (hclean : ∀ h ∈ r.headers, isManaged h = false → h.Contained)
    (hhost : ∀ value ∈ r.headers.first? "Host", '\n' ∉ value.toList)
    (hlength : r.body.length < Numeral.lengthBound) {bytes : Bytes}
    (hbytes : r.encode? viaProxy = .ok bytes) (limit : Nat) {pieces : List Bytes}
    (hpieces : pieces.flatten = bytes) {n : Nat}
    (hverdict : ((Head.Reader.ofLimit limit).feedAll {} pieces).verdict = .complete n) :
    let request := ((Head.Reader.ofLimit limit).feedAll {} pieces).draft.request
    ((request.headers.every "Host").length = 1 ∧
      request.headers.every "Content-Length" =
        (if r.declaresLength then [Numeral.decimal r.body.length] else []) ∧
      request.contentLength? = (if r.declaresLength then some (.ok r.body.length) else none) ∧
      request.headers.every "Transfer-Encoding" = [] ∧
      request.headers.every "Connection" = [] ∧
      request.headers.every "Proxy-Connection" = []) ∧
    bytes.drop n = r.body := by
  intro request
  obtain ⟨host, hfield, hencode⟩ : ∃ host, r.hostField = .ok host ∧
      bytes = Utf8.encode (r.headText viaProxy host) ++ r.body := by
    rw [encode?] at hbytes
    cases hfield : r.hostField with
    | error err =>
      rw [hfield] at hbytes
      cases hbytes
    | ok host =>
      rw [hfield] at hbytes
      exact ⟨host, rfl, (Except.ok.inj hbytes).symm⟩
  have hhost_line : '\n' ∉ host.toList := by
    rw [hostField] at hfield
    cases hfirst : r.headers.first? "Host" with
    | some value =>
      rw [hfirst] at hfield
      obtain rfl : value = host := Except.ok.inj hfield
      exact hhost value hfirst
    | none =>
      rw [hfirst] at hfield
      exact fun hmem => isPlain_authority hurl.plain hfield '\n' hmem (by decide)
  have htarget : '\n' ∉ (r.target viaProxy).toList := fun hmem =>
    isPlain_target hurl.plain viaProxy '\n' hmem (by decide)
  -- the bytes up to the verdict finish the draft
  have hstart : (Head.Reader.ofLimit limit).phase ≠ .done := Phase.noConfusion
  have hfeed : (Head.Reader.ofLimit limit).feedAll {} pieces =
      (Head.Reader.ofLimit limit).feedFrom {} 0 bytes := by
    rw [Reader.feedAll_eq_feed _ _ hstart, hpieces, Reader.feed_of_not_done hstart]
  rw [hfeed] at hverdict
  obtain ⟨-, -, hfinish⟩ := (Reader.feedFrom_complete_iff hstart {} _ 0 n bytes).1
    ⟨by rw [Nat.zero_add]; exact hverdict, rfl⟩
  have hfinish : (Reader.standing .start [] false).finish {} (bytes.take n) = some _ :=
    (Reader.finish_counting (Reader.standing .start [] false) {} 0 limit _).symm.trans hfinish
  obtain ⟨hbody, own, value, hfields, hown⟩ := finish_managed htarget hhost_line hclean
    (by rw [← hencode, List.take_append_drop]) hfinish
  have hheaders : request.headers = ⟨"Host", value⟩ :: own.reverse ++
      if r.declaresLength then [⟨"Content-Length", Numeral.decimal r.body.length⟩] else [] := by
    show ((Head.Reader.ofLimit limit).feedAll {} pieces).draft.fields.reverse = _
    rw [hfeed, hfields, List.reverse_append, List.reverse_append]
    congr 1
    split <;> rfl
  have hown' : ∀ h ∈ own.reverse, isManaged h = false := fun h hh => hown h (List.mem_reverse.1 hh)
  exact ⟨managed_of_headers hown' hheaders hlength, hbody⟩

/-- A request is written like one with other fields if the lines of both are the same. -/
theorem encode?_of_lines {viaProxy : Bool} {r : Outgoing} (host : String) {target : String}
    {read : Headers}
    (hhost : r.hostField = .ok host) (htarget : r.target viaProxy = target)
    (hlines : String.join ((r.sentHeaders host).map line) = String.join (read.map line)) :
    r.encode? viaProxy = .ok (Utf8.encode (headOf r.method target read) ++ r.body) := by
  rw [encode?, hhost, headOf, ← hlines, ← htarget]
  rfl

/-- A post of which the caller gives the fields. -/
def note (headers : Headers) : Outgoing :=
  { method := .post
    url := { scheme := "http", host := some (.name "example.com"), path := .segments ["n"] }
    headers
    body := [0x68, 0x65, 0x6C, 0x6C, 0x6F] }

theorem readable_url_note (headers : Headers) : (note headers).url.Readable :=
  .parse (show Url.parse "http://example.com/n" = .ok (note []).url by decide)

/-- A caller that asks for fields which the connection manages, through a proxy. -/
theorem feedAll_managed_elsewhere :
    let r := note [⟨"X-Note", "Host: nowhere"⟩, ⟨"connection", "close"⟩, ⟨"Host", "elsewhere"⟩]
    ∃ bytes n, r.url.Readable ∧ (∀ h ∈ r.headers, isManaged h = false → h.Contained) ∧
      (∀ value ∈ r.headers.first? "Host", '\n' ∉ value.toList) ∧
      r.body.length < Numeral.lengthBound ∧ r.encode? true = .ok bytes ∧
      ((Head.Reader.ofLimit 1000).feedAll {} [bytes]).verdict = .complete n ∧
      bytes.drop n = r.body := by
  intro r
  let read : Headers :=
    [⟨"Host", "elsewhere"⟩, ⟨"X-Note", "Host: nowhere"⟩, ⟨"Content-Length", "5"⟩]
  let bytes := Utf8.encode (headOf .post "http://example.com/n" read) ++ r.body
  have hclean : ∀ h ∈ r.headers, isManaged h = false → h.Contained := by decide
  have hhost : ∀ value ∈ r.headers.first? "Host", '\n' ∉ value.toList := by decide
  have hlength : r.body.length < Numeral.lengthBound := by decide
  have hbytes : r.encode? true = .ok bytes :=
    encode?_of_lines "elsewhere" (by decide) (by decide) (by decide)
  obtain ⟨n, hverdict, -⟩ := exists_verdict_of_writable .post "http://example.com/n" (by decide)
    (List.all_iff_forall_prop.1 (by decide)) (show ∀ h ∈ read, h.Writable by decide) r.body 1000
    (by decide)
  obtain ⟨-, hdrop⟩ :=
    feedAll_managed (readable_url_note _) hclean hhost hlength hbytes 1000
      List.flatten_singleton hverdict
  exact ⟨bytes, n, readable_url_note _, hclean, hhost, hlength, hbytes, hverdict, hdrop⟩

/-- **Text that is not checked can say what the connection should**, and neither condition can be
left out.  A value with a line end inside gives the request a second length, in front of the
connection's own, and a reader goes by it; a name that goes on after a managed name and a colon gives
it a coding. -/
theorem feedAll_managed_fails :
    (¬∀ (viaProxy : Bool) (r : Outgoing) (bytes : Bytes) (limit n : Nat), r.url.Readable →
      r.body.length < Numeral.lengthBound → r.encode? viaProxy = .ok bytes →
      ((Head.Reader.ofLimit limit).feedAll {} [bytes]).verdict = .complete n →
      (∀ h ∈ r.headers, ':' ∉ h.name.toList) →
      let request := ((Head.Reader.ofLimit limit).feedAll {} [bytes]).draft.request
      (request.headers.every "Content-Length").length ≤ 1 ∧
        ∀ length ∈ request.contentLength?, length = .ok r.body.length) ∧
    ¬∀ (viaProxy : Bool) (r : Outgoing) (bytes : Bytes) (limit n : Nat), r.url.Readable →
      r.body.length < Numeral.lengthBound → r.encode? viaProxy = .ok bytes →
      ((Head.Reader.ofLimit limit).feedAll {} [bytes]).verdict = .complete n →
      (∀ h ∈ r.headers, '\n' ∉ h.name.toList ∧ '\n' ∉ h.value.toList) →
      let request := ((Head.Reader.ofLimit limit).feedAll {} [bytes]).draft.request
      request.headers.every "Transfer-Encoding" = [] := by
  constructor
  · intro hall
    let r := note [⟨"X-Note", "a\r\nContent-Length: 3"⟩]
    let read : Headers :=
      [⟨"Host", "example.com"⟩, ⟨"X-Note", "a"⟩, ⟨"Content-Length", "3"⟩, ⟨"Content-Length", "5"⟩]
    have hbytes : r.encode? false = .ok (Utf8.encode (headOf .post "/n" read) ++ r.body) :=
      encode?_of_lines "example.com" (by decide) (by decide) (by decide)
    obtain ⟨n, hverdict, hrequest⟩ := exists_verdict_of_writable .post "/n" (by decide)
      (List.all_iff_forall_prop.1 (by decide)) (show ∀ h ∈ read, h.Writable by decide) r.body 1000
      (by decide)
    obtain ⟨-, hlength⟩ :=
      hall false r _ 1000 n (readable_url_note _) (by decide) hbytes hverdict (by decide)
    rw [hrequest] at hlength
    exact absurd (hlength (.ok 3) rfl) (by decide)
  · intro hall
    let r := note [⟨"Transfer-Encoding: chunked, X", "a"⟩]
    let read : Headers :=
      [⟨"Host", "example.com"⟩, ⟨"Transfer-Encoding", "chunked, X: a"⟩, ⟨"Content-Length", "5"⟩]
    have hbytes : r.encode? false = .ok (Utf8.encode (headOf .post "/n" read) ++ r.body) :=
      encode?_of_lines "example.com" (by decide) (by decide) (by decide)
    obtain ⟨n, hverdict, hrequest⟩ := exists_verdict_of_writable .post "/n" (by decide)
      (List.all_iff_forall_prop.1 (by decide)) (show ∀ h ∈ read, h.Writable by decide) r.body 1000
      (by decide)
    have hnone :=
      hall false r _ 1000 n (readable_url_note _) (by decide) hbytes hverdict (by decide)
    rw [hrequest] at hnone
    exact absurd hnone (by decide)

end Outgoing

end HttpExchange
