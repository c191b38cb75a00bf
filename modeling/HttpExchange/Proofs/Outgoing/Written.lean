import Mathlib.Data.Bool.AllAny
import HttpExchange.Outgoing
import HttpExchange.Proofs.Head.Grammar
import HttpExchange.Proofs.Head.Writable
import HttpExchange.Proofs.Request.Length

/-!
# What a client writes, a server reads

The client writes a head as text, the server reads it byte by byte.  The two agree on every request
whose parts can stand in a head at all:

* `Outgoing.Sendable` — which these are;
* `exists_fieldForms` — the field lines of a request have a form, and it says those fields;
* `exists_form_of_writable`, `exists_headForm` — so has the whole head;
* `feedAll_encoded` — hence a reader finds the head's end and has the request, however the bytes are
  cut.
-/

namespace HttpExchange

/-! ### What can be written -/

/-- A request whose parts can be written: neither its target nor the authority of its URL has a
space or a control character, and its fields can be written.  That the length of its body is a
possible length holds of every body in memory. -/
structure Outgoing.Sendable (viaProxy : Bool) (r : Outgoing) : Prop where
  target_plain : ∀ c ∈ (r.target viaProxy).toList, c ≠ ' ' ∧ ¬IsControl c
  authority_plain : ∀ a, r.authority = .ok a → ∀ c ∈ a.toList, c ≠ ' ' ∧ ¬IsControl c
  fields : ∀ h ∈ r.headers, h.Writable
  length_lt : r.body.length < Numeral.lengthBound

namespace Outgoing

open Head

/-! ### The field lines -/

/-- A line that is written has a form, and it says the field. -/
theorem exists_fieldForm {h : Header} (hw : h.Writable) :
    ∃ f : FieldForm, f.bytes = Utf8.encode (line h) ∧ f.header = h := by
  have hraw : ∀ b ∈ 0x20 :: Utf8.encode h.value, isValueByte b = true :=
    List.forall_mem_cons.2 ⟨by decide, isValueByte_of_mem_encode hw.value_plain⟩
  let segment : Segment := ⟨0x20 :: Utf8.encode h.value, hraw, .crlf⟩
  refine ⟨⟨Utf8.encode h.name, hw.name_ne_nil, hw.name_token, segment, []⟩, ?_, ?_⟩
  · simp only [line, Utf8.encode_append, FieldForm.bytes, Segment.bytes, segment, List.flatMap_nil,
      List.append_nil, List.append_assoc]
    rfl
  · have hname : Utf8.ascii (Utf8.encode h.name) = h.name := by
      rw [← Utf8.decode_eq_ascii fun b hb => toNat_le_of_isTokenByte (hw.name_token b hb),
        Utf8.decode_encode]
    have htext : segment.text = h.value := by
      rw [Segment.text, Blank.stripEnds_cons (by decide),
        stripEnds_encode hw.value_head hw.value_last, Utf8.decode_encode]
    have hvalue : " ".intercalate ([segment.text].filter (!·.isEmpty)) = h.value := by
      rw [htext]
      by_cases hempty : h.value.isEmpty = true
      · rw [String.isEmpty_iff] at hempty
        rw [hempty]
        rfl
      · simp [hempty]
    rw [FieldForm.header, hname]
    exact congrArg (Header.mk h.name) hvalue

theorem exists_fieldForms {hs : Headers} (hw : ∀ h ∈ hs, h.Writable) :
    ∃ fields : List FieldForm,
      fields.flatMap FieldForm.bytes = Utf8.encode (String.join (hs.map line)) ∧
      fields.map FieldForm.header = hs := by
  induction hs with
  | nil => exact ⟨[], rfl, rfl⟩
  | cons h hs ih =>
    obtain ⟨hh, hhs⟩ := List.forall_mem_cons.1 hw
    obtain ⟨f, hbytes, hheader⟩ := exists_fieldForm hh
    obtain ⟨fields, hfields, hheaders⟩ := ih hhs
    refine ⟨f :: fields, ?_, ?_⟩
    · rw [List.flatMap_cons, List.map_cons, String.join_cons, Utf8.encode_append, hbytes, hfields]
    · rw [List.map_cons, hheader, hheaders]

theorem writable_host {viaProxy : Bool} {r : Outgoing} (hr : r.Sendable viaProxy) {host : String}
    (hhost : r.hostField = .ok host) : (Header.mk "Host" host).Writable := by
  rw [hostField] at hhost
  have hname : Utf8.encode "Host" ≠ [] ∧ ∀ b ∈ Utf8.encode "Host", isTokenByte b = true :=
    ⟨by decide, List.all_eq_true.1 (by decide)⟩
  cases hfirst : r.headers.first? "Host" with
  | some value =>
    rw [hfirst] at hhost
    obtain rfl : value = host := Except.ok.inj hhost
    obtain ⟨h, hfind, rfl⟩ := Option.map_eq_some_iff.1 hfirst
    have hw := hr.fields h (List.mem_of_find?_eq_some hfind)
    exact ⟨hname.1, hname.2, hw.value_plain, hw.value_head, hw.value_last⟩
  | none =>
    rw [hfirst] at hhost
    have hplain := hr.authority_plain host hhost
    have hpad : ∀ c ∈ host.toList, ¬IsPad c := by
      rintro c hc (rfl | rfl)
      · exact (hplain ' ' hc).1 rfl
      · exact (hplain '\t' hc).2 (by decide)
    exact ⟨hname.1, hname.2, fun c hc hcontrol => absurd hcontrol (hplain c hc).2,
      fun c hc => hpad c (List.mem_of_head? hc), fun c hc => hpad c (List.mem_of_getLast? hc)⟩

theorem writable_length (n : Nat) : (Header.mk "Content-Length" (Numeral.decimal n)).Writable := by
  have hdigit : ∀ c ∈ (Numeral.decimal n).toList, 48 ≤ c.toNat ∧ c.toNat ≤ 57 := by
    intro c hc
    exact (Numeral.isDigit_iff c).1 (Numeral.isDigit_of_mem_decimal hc)
  have hpad : ∀ c ∈ (Numeral.decimal n).toList, ¬IsPad c := by
    rintro c hc (rfl | rfl)
    · exact absurd (hdigit _ hc) (by decide)
    · exact absurd (hdigit _ hc) (by decide)
  have hname : Utf8.encode "Content-Length" ≠ [] ∧
      ∀ b ∈ Utf8.encode "Content-Length", isTokenByte b = true :=
    ⟨by decide, List.all_eq_true.1 (by decide)⟩
  refine ⟨hname.1, hname.2, ?_, fun c hc => hpad c (List.mem_of_head? hc),
    fun c hc => hpad c (List.mem_of_getLast? hc)⟩
  intro c hc hcontrol
  have := hdigit c hc
  rcases hcontrol with hlow | hdel <;> omega

theorem writable_sentHeaders {viaProxy : Bool} {r : Outgoing} (hr : r.Sendable viaProxy)
    {host : String} (hhost : r.hostField = .ok host) : ∀ h ∈ r.sentHeaders host, h.Writable := by
  intro h hmem
  rw [sentHeaders, List.mem_append, List.mem_cons] at hmem
  rcases hmem with (rfl | hmem) | hmem
  · exact writable_host hr hhost
  · exact hr.fields h (List.mem_of_mem_filter hmem)
  · split at hmem
    · rw [List.mem_singleton] at hmem
      rw [hmem]
      exact writable_length _
    · cases hmem

/-! ### The head -/

theorem target_ne_empty (viaProxy : Bool) (r : Outgoing) : r.target viaProxy ≠ "" := by
  intro h
  have hlist : (r.target viaProxy).toList = [] := by rw [h]; rfl
  cases viaProxy with
  | false =>
    rw [target, if_neg Bool.false_ne_true, originForm, String.toList_append,
      List.append_eq_nil_iff] at hlist
    by_cases hpath : r.url.path.text.isEmpty = true
    · rw [if_pos hpath] at hlist
      exact absurd hlist.1 (by decide)
    · rw [if_neg hpath, String.toList_eq_nil_iff] at hlist
      exact hpath (String.isEmpty_iff.2 hlist.1)
  | true =>
    have hfragment : r.url.withoutFragment.fragment = none := by
      rw [Url.withoutFragment]
      split <;> rfl
    rw [target, if_pos rfl, absoluteForm, Url.text, hfragment, Url.baseText] at hlist
    simp at hlist

/-- A request line and fields as text. -/
def headOf (m : Method) (target : String) (hs : Headers) : String :=
  m.name ++ " " ++ target ++ " HTTP/1.1\r\n" ++ String.join (hs.map line) ++ "\r\n"

/-- A head of writable fields has a form, and it says what is written. -/
theorem exists_form_of_writable (m : Method) {target : String} (hempty : target ≠ "")
    (htarget : ∀ c ∈ target.toList, c ≠ ' ' ∧ ¬IsControl c) {hs : Headers}
    (hw : ∀ h ∈ hs, h.Writable) :
    ∃ form : HeadForm,
      form.bytes = Utf8.encode (headOf m target hs) ∧
      form.request =
        { method := m, target := target, version := "HTTP/1.1", headers := hs, body := [] } := by
  obtain ⟨fields, hfields, hheaders⟩ := exists_fieldForms hw
  refine ⟨⟨[], by simp, m, _, Utf8.encode_ne_nil hempty, isTargetByte_of_mem_encode htarget,
    0x31, by decide, 0x31, by decide, .crlf, fields, .crlf⟩, ?_, ?_⟩
  · simp only [HeadForm.bytes, hfields, headOf, Utf8.encode_append, List.append_assoc,
      List.nil_append]
    rfl
  · rw [HeadForm.request, hheaders, Utf8.decode_encode]
    congr

/-- **The head that is written has a form.** -/
theorem exists_headForm {viaProxy : Bool} {r : Outgoing} (hr : r.Sendable viaProxy) {host : String}
    (hhost : r.hostField = .ok host) :
    ∃ form : HeadForm, form.bytes = Utf8.encode (r.headText viaProxy host) ∧
      form.request =
        { method := r.method, target := r.target viaProxy, version := "HTTP/1.1",
          headers := r.sentHeaders host, body := [] } :=
  exists_form_of_writable r.method (target_ne_empty viaProxy r) hr.target_plain
    (writable_sentHeaders hr hhost)

/-! ### The length of the body -/

theorem first?_length {r : Outgoing} (host : String) :
    (r.sentHeaders host).first? "Content-Length" =
      if r.declaresLength then some (Numeral.decimal r.body.length) else none := by
  have hhost : (Header.mk "Host" host).named "Content-Length" = false := by
    show Ascii.eqIgnoreCase "Host" "Content-Length" = false
    decide
  have hmanaged : (r.headers.filter (!isManaged ·)).find? (·.named "Content-Length") = none := by
    rw [List.find?_eq_none]
    intro h hmem hnamed
    have hnot := List.of_mem_filter hmem
    have hany : isManaged h = true := by
      rw [isManaged, List.any_eq_true]
      exact ⟨"Content-Length", by decide, hnamed⟩
    rw [hany] at hnot
    cases hnot
  have hlength : ∀ value, (Header.mk "Content-Length" value).named "Content-Length" = true := by
    intro value
    exact Ascii.eqIgnoreCase_refl "Content-Length"
  rw [Headers.first?, sentHeaders, List.cons_append,
    List.find?_cons_of_neg (by rw [hhost]; exact Bool.false_ne_true), List.find?_append, hmanaged,
    Option.none_or]
  split
  · rw [List.find?_singleton, if_pos (hlength _)]
    rfl
  · rfl

theorem declaresLength_iff (r : Outgoing) :
    r.declaresLength = true ↔ r.body ≠ [] ∨ r.method ∈ [.post, .put, .patch] := by
  rw [declaresLength, Bool.or_eq_true, Bool.not_eq_true', List.isEmpty_eq_false_iff,
    Method.expectsBody_iff]

theorem lengthOf_decimal {n : Nat} (h : n < Numeral.lengthBound) :
    Request.lengthOf (Numeral.decimal n) = .ok n := by
  rw [Request.lengthOf_eq_ok_iff, Blank.trim_decimal, Numeral.digits?_decimal]
  exact ⟨rfl, h⟩

/-- **What a client writes, a server reads.**  The request of a client is a head and the body.  A
reader that is fed these bytes, cut in any way, under a limit that admits the head, finds its end and
has: the method, the target, the version, one `Host` with the caller's first value or else the
authority of the URL, the caller's other fields without those a connection manages, and the length of
the body where there is one or where the method asks for one.  The length it reads is the length of
the body. -/
theorem feedAll_encoded {viaProxy : Bool} {r : Outgoing} {name : String}
    (hname : r.url.hostText? = some name) (hr : r.Sendable viaProxy) :
    ∃ head, r.encode? viaProxy = .ok (head ++ r.body) ∧
      ∀ (limit : Nat) (pieces : List Bytes),
        head.length ≤ limit → pieces.flatten = head ++ r.body →
        let p := (Head.Reader.ofLimit limit).feedAll {} pieces
        p.verdict = .complete head.length ∧
          p.draft.request =
            { method := r.method
              target := if viaProxy then r.absoluteForm else r.originForm
              version := "HTTP/1.1"
              headers :=
                ⟨"Host", (r.headers.first? "Host").getD (name ++ r.url.portText)⟩ ::
                  r.headers.filter (fun h =>
                    !(["Host", "Content-Length", "Transfer-Encoding", "Connection",
                      "Proxy-Connection"].any fun managed => h.named managed)) ++
                  if r.body ≠ [] ∨ r.method ∈ [.post, .put, .patch] then
                    [⟨"Content-Length", Numeral.decimal r.body.length⟩]
                  else []
              body := [] } ∧
          p.draft.request.contentLength? =
            if r.body ≠ [] ∨ r.method ∈ [.post, .put, .patch] then some (.ok r.body.length)
            else none := by
  let host := (r.headers.first? "Host").getD (name ++ r.url.portText)
  have hhost : r.hostField = .ok host := by
    rw [hostField]
    cases hfirst : r.headers.first? "Host" with
    | some value => simp only [host, hfirst, Option.getD_some]
    | none =>
      simp only [host, hfirst, Option.getD_none, authority, Outgoing.host, hname]
      rfl
  obtain ⟨form, hbytes, hform⟩ := exists_headForm hr hhost
  refine ⟨form.bytes, ?_, ?_⟩
  · rw [encode?, hhost, hbytes]
    rfl
  intro limit pieces hlimit hpieces p
  have hp : p = (Head.Reader.ofLimit limit).feed {} (form.bytes ++ r.body) := by
    rw [← hpieces]
    exact Reader.feedAll_eq_feed _ _ Phase.noConfusion pieces
  obtain ⟨hverdict, hdraft⟩ :=
    (Reader.feed_complete_iff_form limit form.bytes.length (form.bytes ++ r.body) form.draft).2
      ⟨hlimit, form, List.prefix_append _ _, rfl, rfl⟩
  rw [← hp] at hverdict hdraft
  have hrequest : p.draft.request = form.request := by rw [hdraft, form.request_draft]
  rw [hrequest, hform]
  refine ⟨hverdict, ?_, ?_⟩
  · rw [sentHeaders]
    simp only [declaresLength_iff]
    rfl
  · rw [Request.contentLength?, first?_length]
    simp only [declaresLength_iff]
    split
    · rw [Option.map_some, lengthOf_decimal hr.length_lt]
    · rfl

/-- A field in another script, with a tab inside, and a body. -/
theorem feedAll_encoded_post :
    let r : Outgoing :=
      { method := .post
        url :=
          { scheme := "http", host := some (.name "example.com"), path := .segments ["notes"] }
        headers := [⟨"X-Note", "für\talle"⟩]
        body := [0x68, 0x69] }
    r.url.hostText? = some "example.com" ∧ r.Sendable false ∧
      ∃ head, r.encode? false = .ok (head ++ r.body) ∧
        ∀ (limit : Nat) (pieces : List Bytes),
          head.length ≤ limit → pieces.flatten = head ++ r.body →
          ((Head.Reader.ofLimit limit).feedAll {} pieces).verdict = .complete head.length := by
  intro r
  have hname : r.url.hostText? = some "example.com" := by decide
  have hauthority : r.authority = .ok "example.com" := by decide
  have hfield : (Header.mk "X-Note" "für\talle").Writable := by
    refine ⟨by decide, List.all_eq_true.1 (by decide), List.all_iff_forall_prop.1 (by decide),
      ?_, ?_⟩
    · intro c hc
      obtain rfl : 'f' = c := Option.some.inj hc
      decide
    · intro c hc
      obtain rfl : 'e' = c := Option.some.inj hc
      decide
  have hr : r.Sendable false := by
    refine ⟨List.all_iff_forall_prop.1 (by decide), ?_, ?_, by decide⟩
    · intro a ha
      rw [hauthority] at ha
      obtain rfl := Except.ok.inj ha
      exact List.all_iff_forall_prop.1 (by decide)
    · intro h hmem
      rw [List.mem_singleton.1 hmem]
      exact hfield
  obtain ⟨head, hencode, hread⟩ := feedAll_encoded hname hr
  exact ⟨hname, hr, head, hencode, fun limit pieces hlimit hpieces =>
    (hread limit pieces hlimit hpieces).1⟩

end Outgoing

end HttpExchange
