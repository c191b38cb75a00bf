import HttpExchange.Proofs.Header
import HttpExchange.Proofs.Response.HeadLines

/-!
# What a built response says

A response is put together by setting fields, which takes away those set before under the same name,
and by giving the body at once or piece by piece.  Its length is declared at the end, when it is
built, or else when it is written.

* `Headers.lasts` — of fields set one after another, those that are not set again; `lasts_concat`
  says that setting one more is `Headers.replaced`;
* `ResponseParts.Part`, `putAll` — what is put into a response, one thing after another;
* `headers_putAll`, `body_putAll_of_bodiless`, `body_putAll_of_body` — what has come of that;
* `build_putAll` — what is built of it and how its head is written;
* `build_putAll_fails` — a line end in a value makes a second line for the length.
-/

namespace HttpExchange

namespace Headers

/-! ### The last field of each name -/

/-- The fields behind which there is none of the same name. -/
def lasts : Headers → Headers
  | [] => []
  | h :: rest => if has rest h.name then lasts rest else h :: lasts rest

variable {hs : Headers} {name other : String}

/-- Names that are equal up to case name the same fields. -/
theorem named_congr (h : Ascii.eqIgnoreCase name other = true) (field : Header) :
    field.named name = field.named other := by
  rw [Ascii.eqIgnoreCase, beq_iff_eq] at h
  rw [Header.named, Header.named, Ascii.eqIgnoreCase, Ascii.eqIgnoreCase, h]

theorem every_congr (h : Ascii.eqIgnoreCase name other = true) (hs : Headers) :
    hs.every name = hs.every other := by
  simp only [every, named_congr h]

theorem has_congr (h : Ascii.eqIgnoreCase name other = true) (hs : Headers) :
    hs.has name = hs.has other := by
  rw [has, has, first?_eq_head?_every, first?_eq_head?_every, every_congr h]

theorem named_comm (h field : Header) : h.named field.name = field.named h.name :=
  Ascii.eqIgnoreCase_comm h.name field.name

theorem has_eq_any (hs : Headers) (name : String) : hs.has name = hs.any (·.named name) := by
  rw [has, first?, Option.isSome_map, List.isSome_find?]

theorem has_singleton (h : Header) (name : String) : has [h] name = h.named name := by
  rw [has_eq_any, List.any_cons, List.any_nil, Bool.or_false]

theorem every_eq_nil_iff : hs.every name = [] ↔ hs.has name = false := by
  rw [has_eq_false_iff, first?_eq_head?_every, List.head?_eq_none_iff]

theorem lasts_cons (h : Header) (rest : Headers) :
    lasts (h :: rest) = if has rest h.name then lasts rest else h :: lasts rest := rfl

theorem lasts_sublist (hs : Headers) : hs.lasts.Sublist hs := by
  induction hs with
  | nil => exact .slnil
  | cons h rest ih =>
    rw [lasts_cons]
    split
    · exact ih.cons h
    · exact ih.cons_cons h

/-- **Setting one more field** takes away those of the same name, and is setting it last. -/
theorem lasts_concat (hs : Headers) (h : Header) :
    lasts (hs ++ [h]) = hs.lasts.replaced h.name h.value := by
  induction hs with
  | nil => rfl
  | cons field rest ih =>
    rw [List.cons_append, lasts_cons, lasts_cons, has_append, has_singleton, ih]
    cases hrest : has rest field.name with
    | true => rfl
    | false =>
      cases hnamed : h.named field.name with
      | true =>
        have hgone : without (field :: lasts rest) h.name = (lasts rest).without h.name := by
          rw [without, List.filter_cons_of_neg, without]
          rw [← named_comm, hnamed]
          exact Bool.false_ne_true
        rw [if_neg Bool.false_ne_true, replaced, replaced, hgone]
        rfl
      | false =>
        have hkept : without (field :: lasts rest) h.name =
            field :: without (lasts rest) h.name := by
          rw [without, List.filter_cons_of_pos, without]
          rw [← named_comm, hnamed]
          rfl
        rw [if_neg Bool.false_ne_true, replaced, replaced, hkept]
        rfl

/-- **No two of them have the same name.** -/
theorem pairwise_lasts (hs : Headers) :
    hs.lasts.Pairwise fun h k => Ascii.eqIgnoreCase h.name k.name = false := by
  induction hs with
  | nil => exact .nil
  | cons h rest ih =>
    rw [lasts_cons]
    split
    · exact ih
    · next hlast =>
      rw [Bool.not_eq_true, has_eq_any, List.any_eq_false] at hlast
      refine List.pairwise_cons.2 ⟨fun k hk => ?_, ih⟩
      have hnot := hlast k ((lasts_sublist rest).subset hk)
      rw [Ascii.eqIgnoreCase_comm]
      exact eq_false_of_ne_true hnot

/-- **The value of a name is the one that was set last.** -/
theorem first?_lasts (hs : Headers) (name : String) :
    hs.lasts.first? name = (hs.every name).getLast? := by
  induction hs with
  | nil => rfl
  | cons h rest ih =>
    rw [lasts_cons, every_cons]
    cases hnamed : h.named name with
    | false =>
      -- A field of another name makes no difference, whether it stays or goes.
      have hskip : first? (h :: lasts rest) name = (lasts rest).first? name := by
        rw [first?, first?, List.find?_cons_of_neg (by rw [hnamed]; exact Bool.false_ne_true)]
      rw [if_neg Bool.false_ne_true, List.nil_append]
      split
      · exact ih
      · rw [hskip, ih]
    | true =>
      have hsame : has rest h.name = has rest name := has_congr hnamed rest
      rw [hsame, if_pos rfl, List.singleton_append]
      cases hrest : has rest name with
      | true =>
        have hne : every rest name ≠ [] := by
          intro hnil
          rw [every_eq_nil_iff, hrest] at hnil
          cases hnil
        rw [if_pos rfl, ih, List.getLast?_cons_of_ne_nil hne]
      | false =>
        have hfirst : first? (h :: lasts rest) name = some h.value := by simp [first?, hnamed]
        rw [if_neg Bool.false_ne_true, every_eq_nil_iff.2 hrest, hfirst]
        rfl

theorem has_lasts (hs : Headers) (name : String) : hs.lasts.has name = hs.has name := by
  rw [has, first?_lasts, has, first?_eq_head?_every]
  cases hs.every name with
  | nil => rfl
  | cons value rest =>
    rw [List.getLast?_cons]
    rfl

/-- Where no two fields have the same name, there is one of a name at most. -/
theorem length_every_le_one {hs : Headers}
    (h : hs.Pairwise fun f g => Ascii.eqIgnoreCase f.name g.name = false) (name : String) :
    (hs.every name).length ≤ 1 := by
  induction hs with
  | nil => exact Nat.zero_le _
  | cons field rest ih =>
    obtain ⟨hfield, hrest⟩ := List.pairwise_cons.1 h
    rw [every_cons]
    cases hnamed : field.named name with
    | false =>
      rw [if_neg Bool.false_ne_true, List.nil_append]
      exact ih hrest
    | true =>
      have hnone : every rest name = [] := by
        rw [every_eq_nil_iff, ← has_congr hnamed, has_eq_any, List.any_eq_false]
        intro other hother
        rw [named_comm, Header.named, hfield other hother]
        exact Bool.false_ne_true
      rw [hnone]
      rfl

end Headers

namespace Response

/-! ### Segments -/

@[simp]
theorem headers_append (r : Response) (segment : Bytes) :
    (r.append segment).headers = r.headers := by
  rw [append]
  split <;> rfl

@[simp]
theorem status_append (r : Response) (segment : Bytes) :
    (r.append segment).status = r.status := by
  rw [append]
  split <;> rfl

theorem bodyBytes_append (r : Response) (segment : Bytes) :
    (r.append segment).bodyBytes = r.bodyBytes ++ segment := by
  rw [append]
  split
  · next hempty => rw [List.isEmpty_iff.1 hempty, List.append_nil]
  · rw [bodyBytes, bodyBytes, List.flatten_concat]

/-- No segment of the body is empty. -/
def Filled (r : Response) : Prop := ∀ segment ∈ r.body, segment ≠ []

theorem Filled.append {r : Response} (h : r.Filled) (segment : Bytes) :
    (r.append segment).Filled := by
  rw [Response.append]
  split
  · exact h
  · next hne =>
    intro other hother
    rcases List.mem_append.1 hother with hother | hother
    · exact h other hother
    · rw [List.mem_singleton.1 hother]
      exact fun hnil => hne (List.isEmpty_iff.2 hnil)

end Response

namespace ResponseParts

/-! ### Putting a response together -/

/-- What is put into a response. -/
inductive Part
  | field (name value : String)
  | body (bytes : Bytes)
  | chunk (bytes : Bytes)
  deriving DecidableEq

namespace Part

/-- The field that is set. -/
def field? : Part → Option Header
  | field name value => some ⟨name, value⟩
  | body _ | chunk _ => none

/-- The piece of the body that is added to the others. -/
def chunk? : Part → Option Bytes
  | chunk bytes => some bytes
  | field _ _ | body _ => none

/-- Whether the whole body is given. -/
def isBody : Part → Bool
  | body _ => true
  | field _ _ | chunk _ => false

end Part

/-- The fields that are set, one after another. -/
def fields (parts : List Part) : Headers := parts.filterMap Part.field?

/-- The pieces that are added to the body. -/
def chunks (parts : List Part) : List Bytes := parts.filterMap Part.chunk?

/-- One more part is put in. -/
def put (p : ResponseParts) : Part → ResponseParts
  | .field name value => p.header name value
  | .body bytes => p.body bytes
  | .chunk bytes => p.chunk bytes

/-- Parts are put in, one after another. -/
def putAll (p : ResponseParts) (parts : List Part) : ResponseParts := parts.foldl put p

variable {p : ResponseParts} {parts before after : List Part} {status : Status} {bytes : Bytes}

theorem putAll_cons (p : ResponseParts) (part : Part) (parts : List Part) :
    p.putAll (part :: parts) = (p.put part).putAll parts := rfl

theorem putAll_append (p : ResponseParts) (before after : List Part) :
    p.putAll (before ++ after) = (p.putAll before).putAll after := List.foldl_append

theorem status_put (p : ResponseParts) (part : Part) :
    (p.put part).response.status = p.response.status := by
  cases part with
  | field => rfl
  | body bytes => exact Response.status_append _ bytes
  | chunk bytes => exact Response.status_append _ bytes

theorem status_putAll (p : ResponseParts) (parts : List Part) :
    (p.putAll parts).response.status = p.response.status := by
  induction parts generalizing p with
  | nil => rfl
  | cons part parts ih => rw [putAll_cons, ih, status_put]

/-- One more part, and what it makes of the fields that were set before. -/
theorem headers_put {set : Headers} (h : p.response.headers = set.lasts) (part : Part) :
    (p.put part).response.headers = Headers.lasts (set ++ fields [part]) := by
  cases part with
  | field name value =>
    show p.response.headers.replaced name value = Headers.lasts (set ++ [⟨name, value⟩])
    rw [Headers.lasts_concat, h]
  | body bytes =>
    show (Response.append _ bytes).headers = Headers.lasts (set ++ [])
    rw [Response.headers_append, List.append_nil]
    exact h
  | chunk bytes =>
    show (Response.append _ bytes).headers = Headers.lasts (set ++ [])
    rw [Response.headers_append, List.append_nil]
    exact h

/-- **The fields are those that were not set again.** -/
theorem headers_putAll (set : Headers) (h : p.response.headers = set.lasts) (parts : List Part) :
    (p.putAll parts).response.headers = Headers.lasts (set ++ fields parts) := by
  induction parts generalizing p set with
  | nil =>
    show p.response.headers = Headers.lasts (set ++ [])
    rw [List.append_nil]
    exact h
  | cons part parts ih =>
    have hfields : fields (part :: parts) = fields [part] ++ fields parts :=
      List.filterMap_append (l := [part])
    rw [putAll_cons, ih _ (headers_put h part), List.append_assoc, ← hfields]

theorem filled_put (h : p.response.Filled) (part : Part) : (p.put part).response.Filled := by
  cases part with
  | field => exact h
  | body bytes =>
    have hnone : { p.response with body := [] : Response }.Filled := fun _ => by simp
    exact hnone.append bytes
  | chunk bytes => exact h.append bytes

theorem filled_putAll (h : p.response.Filled) (parts : List Part) :
    (p.putAll parts).response.Filled := by
  induction parts generalizing p with
  | nil => exact h
  | cons part parts ih => exact ih (filled_put h part)

/-- **Pieces are added to the body** as long as it is not given anew. -/
theorem bodyBytes_putAll (h : ∀ part ∈ parts, part.isBody = false) :
    (p.putAll parts).response.bodyBytes = p.response.bodyBytes ++ (chunks parts).flatten := by
  induction parts generalizing p with
  | nil => exact (List.append_nil _).symm
  | cons part parts ih =>
    obtain ⟨hpart, hparts⟩ := List.forall_mem_cons.1 h
    rw [putAll_cons, ih hparts]
    cases part with
    | field => rfl
    | body => cases hpart
    | chunk bytes =>
      show (p.response.append bytes).bodyBytes ++ _ = _ ++ (bytes ++ (chunks parts).flatten)
      rw [Response.bodyBytes_append, List.append_assoc]

/-- Giving the whole body makes away with what there was of it. -/
theorem bodyBytes_body (p : ResponseParts) (bytes : Bytes) :
    (p.put (.body bytes)).response.bodyBytes = bytes :=
  (Response.bodyBytes_append _ bytes).trans (List.nil_append bytes)

/-- **The body is the last that was given**, and the pieces that were added to it. -/
theorem bodyBytes_putAll_of_body (p : ResponseParts) (before : List Part) (bytes : Bytes)
    (h : ∀ part ∈ after, part.isBody = false) :
    (p.putAll (before ++ .body bytes :: after)).response.bodyBytes =
      bytes ++ (chunks after).flatten := by
  rw [putAll_append, putAll_cons, bodyBytes_putAll h, bodyBytes_body]

/-! ### The built response -/

/-- What is built has the length of its body among its fields, if it was still to be declared. -/
theorem build_eq (p : ResponseParts) :
    p.build = { p.response with headers := p.response.headers ++ p.response.lengthField } := by
  rw [build, Response.lengthField]
  split
  · rfl
  · rw [List.append_nil]

/-- **Building declares the length**, so that writing does not do it again. -/
theorem needsLength_build (p : ResponseParts) : p.build.needsLength = false := by
  cases h : p.response.needsLength with
  | false =>
    rw [build, if_neg (Bool.eq_false_iff.1 h)]
    exact h
  | true =>
    rw [build, if_pos h, Response.needsLength, Response.addHeader, Headers.added,
      Headers.has_append, Headers.has_singleton, Header.named_length, Bool.or_true]
    rfl

/-- The length of the body is the one field that is added. -/
theorem lengthField_eq (r : Response) : r.lengthField =
    if r.headers.has "Content-Length" = false ∧ r.status ∉ [.noContent, .notModified] then
      [⟨"Content-Length", Numeral.decimal r.bodyLength⟩]
    else [] := by
  simp only [Response.lengthField, Response.needsLength_iff, Headers.has_eq_false_iff]

/-- The fields of what is built are still all different. -/
theorem pairwise_build (h : p.response.headers.Pairwise fun f g =>
    Ascii.eqIgnoreCase f.name g.name = false) :
    p.build.headers.Pairwise fun f g => Ascii.eqIgnoreCase f.name g.name = false := by
  rw [build_eq, List.pairwise_append]
  refine ⟨h, ?_, fun f hf g hg => ?_⟩
  · rw [lengthField_eq]
    split
    · exact List.pairwise_singleton _ _
    · exact .nil
  · rw [lengthField_eq] at hg
    split at hg
    · next hnone =>
      obtain ⟨hnone, -⟩ := hnone
      rw [Headers.has_eq_any, List.any_eq_false] at hnone
      rw [List.mem_singleton.1 hg]
      exact eq_false_of_ne_true (hnone f hf)
    · cases hg

/-- What is written of a built response has the lengths among its fields, and no other. -/
theorem filter_sentHeaders_build (p : ResponseParts) :
    p.build.sentHeaders.filter (·.named "Content-Length") =
      p.build.headers.filter (·.named "Content-Length") := by
  have hclose : p.build.closeField.filter (·.named "Content-Length") = [] := by
    rw [Response.closeField]
    split
    · rfl
    · decide
  rw [Response.sentHeaders, Response.lengthField, needsLength_build, if_neg Bool.false_ne_true,
    List.nil_append, List.filter_append, hclose, List.append_nil]

/-- It has one unless it was not set and the status allows no body. -/
theorem has_length_build_iff (p : ResponseParts) :
    p.build.headers.has "Content-Length" = false ↔
      p.response.headers.has "Content-Length" = false ∧
        p.response.status ∈ [.noContent, .notModified] := by
  rw [build_eq, Headers.has_append, lengthField_eq]
  by_cases hadd : p.response.headers.has "Content-Length" = false ∧
      p.response.status ∉ [.noContent, .notModified]
  · rw [if_pos hadd, Headers.has_singleton, Header.named_length, Bool.or_true]
    exact iff_of_false (fun h => by cases h) fun h => hadd.2 h.2
  · rw [if_neg hadd, show Headers.has [] "Content-Length" = false from rfl, Bool.or_false]
    exact ⟨fun hown => ⟨hown, not_not.1 fun hstatus => hadd ⟨hown, hstatus⟩⟩, fun h => h.1⟩

/-- If it was not set, it is that of the body. -/
theorem first?_length_build (h : p.response.headers.has "Content-Length" = false) {value : String}
    (hvalue : p.build.headers.first? "Content-Length" = some value) :
    value = Numeral.decimal p.response.bodyLength := by
  rw [build_eq, Headers.first?_append, Headers.has_eq_false_iff.1 h, Option.none_or,
    lengthField_eq] at hvalue
  split at hvalue
  · rw [Headers.first?_singleton_self] at hvalue
    exact (Option.some.inj hvalue).symm
  · cases hvalue

/-- What holds of the fields that are set, and of the length, holds of those of what is built. -/
theorem forall_mem_build {P : Header → Prop} (hown : ∀ f ∈ p.response.headers, P f)
    (hlength : P ⟨"Content-Length", Numeral.decimal p.response.bodyLength⟩) :
    ∀ f ∈ p.build.headers, P f := by
  intro f hf
  rw [build_eq, List.mem_append, lengthField_eq] at hf
  rcases hf with hf | hf
  · exact hown f hf
  · split at hf
    · rw [List.mem_singleton.1 hf]
      exact hlength
    · cases hf

/-- **A built response has one consistent set of fields.**  Put anything into a response with some
status, one thing after another, and build it.  Its fields are those that were not set again, in
their order, and behind them the length of the body if that was not set and the status allows a body.
So no two of them have the same name, and a name that was set has the value that was set last.  The
body is the last that was given and the pieces added after that, or all pieces if none was given, and
no segment of it is empty.  The length is declared unless it was not set and the status is 204 or
304, and is that of the body unless it was set.

The head is written with these fields and one for the end of the connection if they do not speak of
it; one at most has the name of the length.  If there is no line end in what was set, each is one
line; and if no other name that was set reads like that of the length, one line at most declares a
length.  Where the fields are such as can be read back, that head is read. -/
theorem build_putAll (status : Status) (parts : List Part) :
    let result := ((ofStatus status).putAll parts).build
    let set := fields parts
    (result.headers = set.lasts ++
      if set.has "Content-Length" = false ∧ status ∉ [.noContent, .notModified] then
        [⟨"Content-Length", Numeral.decimal result.bodyBytes.length⟩]
      else []) ∧
    (result.headers.Pairwise fun f g => Ascii.eqIgnoreCase f.name g.name = false) ∧
    (∀ name, set.has name = true →
      result.headers.first? name = (set.every name).getLast?) ∧
    (∀ before bytes after, parts = before ++ .body bytes :: after →
      (∀ part ∈ after, part.isBody = false) →
      result.bodyBytes = bytes ++ (chunks after).flatten) ∧
    ((∀ part ∈ parts, part.isBody = false) → result.bodyBytes = (chunks parts).flatten) ∧
    (∀ segment ∈ result.body, segment ≠ []) ∧
    (result.headers.has "Content-Length" = false ↔
      set.has "Content-Length" = false ∧ status ∈ [.noContent, .notModified]) ∧
    (set.has "Content-Length" = false → ∀ value,
      result.headers.first? "Content-Length" = some value →
        value = Numeral.decimal result.bodyBytes.length) ∧
    result.buffers.head? = some result.replyHead.bytes ∧
    result.buffers.head? = some (Utf8.encode result.headText) ∧
    (result.replyHead.headers.every "Content-Length").length ≤ 1 ∧
    ((∀ f ∈ set, f.Unbroken) →
      Reply.Head.lines result.headText.toList =
        result.replyHead.statusLine :: result.sentHeaders.map Reply.Head.fieldLine ++ [[], []] ∧
      ((∀ f ∈ set, Reply.Head.isLengthLine (Reply.Head.fieldLine f) = true →
          f.named "Content-Length" = true) →
        result.lengthLines =
          (result.headers.filter (·.named "Content-Length")).map Reply.Head.fieldLine ∧
        result.lengthLines.length ≤ 1)) ∧
    ((∀ f ∈ set, f.Legible) →
      Reply.Head.ofBytes result.replyHead.bytes = .ok result.replyHead) := by
  intro result set
  let p := (ofStatus status).putAll parts
  have hheaders : p.response.headers = set.lasts := headers_putAll [] rfl parts
  have hstatus : p.response.status = status := status_putAll (ofStatus status) parts
  have hhas : p.response.headers.has "Content-Length" = set.has "Content-Length" := by
    rw [hheaders, Headers.has_lasts]
  have hresult : result = { p.response with
      headers := p.response.headers ++ p.response.lengthField } := build_eq p
  have hbody : result.bodyBytes = p.response.bodyBytes := by rw [hresult, Response.bodyBytes]; rfl
  have hlength : p.response.lengthField =
      if set.has "Content-Length" = false ∧ status ∉ [.noContent, .notModified] then
        [⟨"Content-Length", Numeral.decimal result.bodyBytes.length⟩]
      else [] := by
    rw [lengthField_eq, hhas, hstatus, hbody]
    rfl
  have hdifferent : result.headers.Pairwise fun f g => Ascii.eqIgnoreCase f.name g.name = false :=
    pairwise_build (hheaders ▸ Headers.pairwise_lasts set)
  have hset : ∀ f ∈ p.response.headers, f ∈ set := fun f hf =>
    (Headers.lasts_sublist set).subset (hheaders ▸ hf)
  have hunbroken (hlines : ∀ f ∈ set, f.Unbroken) : ∀ f ∈ result.headers, f.Unbroken :=
    forall_mem_build (fun f hf => hlines f (hset f hf)) (Response.unbroken_length _)
  refine ⟨by rw [← hlength, ← hheaders, hresult], hdifferent, fun name hname => ?value,
    fun before bytes after hparts hafter => ?body, fun hnone => ?pieces, ?filled, ?declared,
    fun hown value hvalue => ?length, ?head, rfl, ?one,
    fun hlines => ⟨?lines, fun hshown => ?shown⟩, fun hlegible => ?read⟩
  case value =>
    have hne : set.every name ≠ [] := by
      intro hnil
      rw [Headers.every_eq_nil_iff, hname] at hnil
      cases hnil
    rw [hresult, Headers.first?_append, hheaders, Headers.first?_lasts,
      List.getLast?_eq_some_getLast hne, Option.some_or]
  case body =>
    rw [hbody]
    show ((ofStatus status).putAll parts).response.bodyBytes = _
    rw [hparts]
    exact bodyBytes_putAll_of_body _ before bytes hafter
  case pieces =>
    rw [hbody]
    exact bodyBytes_putAll hnone
  case filled =>
    rw [hresult]
    exact filled_putAll (fun _ => by simp [ofStatus, Response.ofStatus]) parts
  case declared => rw [has_length_build_iff, hhas, hstatus]
  case length =>
    rw [hbody]
    exact first?_length_build (hhas.trans hown) hvalue
  case head =>
    rw [← Response.headBytes_eq]
    rfl
  case one =>
    show ((result.sentHeaders.filter (·.named "Content-Length")).map _).length ≤ 1
    rw [show result.sentHeaders.filter _ = _ from filter_sentHeaders_build p]
    exact Headers.length_every_le_one hdifferent _
  case lines => exact Response.lines_headText (hunbroken hlines)
  case shown =>
    have hlengths : result.lengthLines =
        (result.headers.filter (·.named "Content-Length")).map Reply.Head.fieldLine := by
      rw [Response.lengthLines_eq (hunbroken hlines)
        (forall_mem_build (fun f hf => hshown f (hset f hf)) fun _ => Header.named_length _)]
      exact congrArg _ (filter_sentHeaders_build p)
    have hone := Headers.length_every_le_one hdifferent "Content-Length"
    rw [Headers.every, List.length_map] at hone
    refine ⟨hlengths, ?_⟩
    rw [hlengths, List.length_map]
    exact hone
  case read =>
    have hown : ∀ f ∈ p.response.headers, f.Legible := fun f hf => hlegible f (hset f hf)
    refine Reply.Head.ofBytes_bytes (Response.legible_replyHead fun f hf => ?_)
    refine Response.legible_sentHeaders hown f ?_
    rw [hresult] at hf
    rw [Response.sentHeaders, ← List.append_assoc]
    exact List.mem_append_left _ hf

/-- A length is declared, and declared again in capitals; a body is given, and given again. -/
def givenTwice : List Part :=
  [.field "Content-Length" "9", .chunk [0x61], .body [0x62], .field "X-Id" "1", .body [0x63],
    .chunk [], .chunk [0x64], .field "CONTENT-LENGTH" "7"]

/-- What was said last holds, and nothing is added to it. -/
theorem build_putAll_givenTwice :
    let result := ((ofStatus .ok).putAll givenTwice).build
    result.headers = [⟨"X-Id", "1"⟩, ⟨"CONTENT-LENGTH", "7"⟩] ∧
      result.headers.first? "content-length" = some "7" ∧
      result.bodyBytes = [0x63, 0x64] ∧
      result.lengthLines = ["CONTENT-LENGTH: 7".toList] ∧
      Reply.Head.ofBytes result.replyHead.bytes = .ok result.replyHead := by
  intro result
  have hset : fields givenTwice =
      [⟨"Content-Length", "9"⟩, ⟨"X-Id", "1"⟩, ⟨"CONTENT-LENGTH", "7"⟩] := rfl
  obtain ⟨hheaders, -, hvalue, hbody, -, -, -, -, -, -, -, hlines, hread⟩ :=
    build_putAll .ok givenTwice
  have hresult : result.headers = [⟨"X-Id", "1"⟩, ⟨"CONTENT-LENGTH", "7"⟩] :=
    hheaders.trans (by decide)
  have hlegible : ∀ f ∈ fields givenTwice, f.Legible := by
    rw [hset]
    refine List.forall_mem_cons.2 ⟨?_, List.forall_mem_cons.2 ⟨?_, List.forall_mem_singleton.2 ?_⟩⟩
    all_goals
      exact Response.legible_header (List.all_eq_true.1 (by decide))
        (List.all_iff_forall_prop.1 (by decide)) (by decide)
  have hunbroken : ∀ f ∈ fields givenTwice, f.Unbroken := fun f hf =>
    Header.unbroken_of_ne_cr (fun c hc => ((hlegible f hf).name_plain c hc).2)
      (hlegible f hf).value_plain
  obtain ⟨hlengths, -⟩ := (hlines hunbroken).2 (by rw [hset]; decide)
  refine ⟨hresult, ?_, ?_, ?_, hread hlegible⟩
  · exact (hvalue "content-length" (by decide)).trans (by decide)
  · exact hbody _ _ _ (show givenTwice = [.field "Content-Length" "9", .chunk [0x61],
      .body [0x62], .field "X-Id" "1"] ++ .body [0x63] :: _ from rfl) (by decide)
  · rw [hlengths, hresult]
    decide

/-- A note with a line end in it, and a body of five bytes. -/
def noted : List Part :=
  [.field "X-Note" "a\r\nContent-Length: 3", .body [0x68, 0x65, 0x6C, 0x6C, 0x6F]]

/-- **A line end in a value makes a second line for the length**, in front of the real one. -/
theorem build_putAll_fails :
    let result := ((ofStatus .ok).putAll noted).build
    result.lengthLines = ["Content-Length: 3".toList, "Content-Length: 5".toList] ∧
      result.bodyBytes.length = 5 ∧
      ¬ ∀ (status : Status) (parts : List Part),
        (((ofStatus status).putAll parts).build).lengthLines.length ≤ 1 := by
  have hlines : (((ofStatus .ok).putAll noted).build).lengthLines =
      ["Content-Length: 3".toList, "Content-Length: 5".toList] := by decide
  refine ⟨hlines, by decide, fun hall => ?_⟩
  have hone := hall .ok noted
  rw [hlines] at hone
  exact absurd hone (by decide)

end ResponseParts

end HttpExchange
