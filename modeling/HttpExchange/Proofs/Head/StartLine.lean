import HttpExchange.Proofs.Head.Finish

/-!
# The request line is read

What a reader makes of the parts of a request line, each up to the byte that ends it, and of the line
end behind them.

* `finish_start_iff` — stray line ends, then the name of a method;
* `finish_target_iff` — a target;
* `finish_lineEnd_iff` — a line end, in every phase that waits for one;
* `finish_version_iff` — a version.
-/

namespace HttpExchange.Head.Reader

/-! ### The request line -/

/-- The name of a method is a token, and is not empty. -/
theorem exists_name_bytes (m : Method) : ∃ b tail, Utf8.encode m.name = b :: tail ∧
    isLineEnd b = false ∧ ∀ x ∈ b :: tail, isTokenByte x = true := by
  cases m <;> exact ⟨_, _, rfl, by decide, List.all_eq_true.1 (by decide)⟩

/-- A token that is read as a method is the name of that method. -/
theorem ofName?_decode_iff {token : Bytes} (h : ∀ b ∈ token, isTokenByte b = true) (m : Method) :
    Method.ofName? (Utf8.decode token) = some m ↔ token = Utf8.encode m.name := by
  constructor
  · intro hm
    exact Utf8.eq_encode_of_decode (fun b hb => toNat_le_of_isTokenByte (h b hb))
      (Method.eq_name_of_ofName? hm).symm
  · rintro rfl
    rw [Utf8.decode_encode, Method.ofName?_name]

theorem finish_method_iff {d e : Draft} (first : UInt8) (input : Bytes)
    (hfirst : isTokenByte first = true) :
    (standing .method [first] false).finish d input = some e ↔
      ∃ m rest, first :: input = Utf8.encode (Method.name m) ++ 0x20 :: rest ∧
        (standing .target [] false).finish { d with method := m } rest = some e := by
  have hpush : ∀ (t : List UInt8) (b : UInt8), isTokenByte b = true →
      (standing .method t false).accept d b = .ok (standing .method (b :: t) false, d) := by
    intro t b hb
    have hspace : b ≠ 0x20 := ne_of_class hb (by decide)
    simp [accept, standing, push, hb, hspace]
  have hend : ∀ (t : List UInt8) (m : Method), Method.ofName? (Utf8.decode t.reverse) = some m →
      (standing .method t false).accept d 0x20 =
        .ok (standing .target [] false, { d with method := m }) := by
    intro t m hm
    simp [accept, standing, tokenText, take, hm]
  rw [finish_span (g := fun t => standing .method t false) (fun t => Phase.noConfusion) hpush]
  constructor
  · intro h
    obtain ⟨run, b, rest, rfl, hrun, hb, hfinish⟩ := h
    have hclass : ∀ x ∈ first :: run, isTokenByte x = true := List.forall_mem_cons.2 ⟨hfirst, hrun⟩
    have htoken : (run.reverse ++ [first]).reverse = first :: run := by simp
    by_cases hspace : b = 0x20
    · subst hspace
      cases hm : Method.ofName? (Utf8.decode (first :: run)) with
      | none =>
        rw [finish_cons_error (f := .method)
          (by simp [accept, standing, tokenText, htoken, hm])] at hfinish
        cases hfinish
      | some m =>
        rw [finish_cons_ok Phase.noConfusion (hend _ m (by rw [htoken, hm]))] at hfinish
        refine ⟨m, rest, ?_, hfinish⟩
        rw [← (ofName?_decode_iff hclass m).1 hm, List.cons_append]
    · rw [finish_cons_error (f := .method) (by simp [accept, standing, hspace, hb])] at hfinish
      cases hfinish
  · intro h
    obtain ⟨m, rest, hinput, hfinish⟩ := h
    obtain ⟨b, tail, hname, -, hclass⟩ := exists_name_bytes m
    rw [hname, List.cons_append, List.cons.injEq] at hinput
    obtain ⟨rfl, rfl⟩ := hinput
    refine ⟨tail, 0x20, rest, rfl, fun x hx => hclass x (List.mem_cons_of_mem _ hx), by decide, ?_⟩
    have htoken : (tail.reverse ++ [first]).reverse = first :: tail := by simp
    have hm : Method.ofName? (Utf8.decode (first :: tail)) = some m :=
      (ofName?_decode_iff hclass m).2 hname.symm
    rw [finish_cons_ok Phase.noConfusion (hend _ m (by rw [htoken, hm]))]
    exact hfinish

/-- A head begins with stray line ends and the name of a method. -/
theorem finish_start_iff {d e : Draft} (input : Bytes) :
    (standing .start [] false).finish d input = some e ↔
      ∃ lead m rest, input = lead ++ (Utf8.encode (Method.name m) ++ 0x20 :: rest) ∧
        (∀ b ∈ lead, isLineEnd b = true) ∧
        (standing .target [] false).finish { d with method := m } rest = some e := by
  have hpush : ∀ (t : List UInt8) (b : UInt8), isLineEnd b = true →
      (standing .start [] false).accept d b = .ok (standing .start [] false, d) := by
    intro t b hb
    simp [accept, standing, hb]
  have hend : ∀ b : UInt8, isLineEnd b = false → isTokenByte b = true →
      (standing .start [] false).accept d b = .ok (standing .method [b] false, d) := by
    intro b hb htoken
    simp [accept, standing, push, goto, hb, htoken]
  rw [finish_span (g := fun _ => standing .start [] false) (fun t => Phase.noConfusion) hpush []]
  constructor
  · intro h
    obtain ⟨lead, b, rest, rfl, hlead, hb, hfinish⟩ := h
    by_cases htoken : isTokenByte b = true
    · rw [finish_cons_ok Phase.noConfusion (hend b hb htoken)] at hfinish
      obtain ⟨m, rest', hinput, hfinish⟩ := (finish_method_iff b rest htoken).1 hfinish
      exact ⟨lead, m, rest', by rw [hinput], hlead, hfinish⟩
    · rw [finish_cons_error (f := .method) (by simp [accept, standing, hb, htoken])] at hfinish
      cases hfinish
  · intro h
    obtain ⟨lead, m, rest, rfl, hlead, hfinish⟩ := h
    obtain ⟨b, tail, hname, hb, hclass⟩ := exists_name_bytes m
    have htoken : isTokenByte b = true := hclass b List.mem_cons_self
    refine ⟨lead, b, tail ++ 0x20 :: rest, by rw [hname]; rfl, hlead, hb, ?_⟩
    rw [finish_cons_ok Phase.noConfusion (hend b hb htoken)]
    exact (finish_method_iff b _ htoken).2 ⟨m, rest, by rw [hname]; rfl, hfinish⟩

/-- Then comes a target. -/
theorem finish_target_iff {d e : Draft} (input : Bytes) :
    (standing .target [] false).finish d input = some e ↔
      ∃ target rest, input = target ++ 0x20 :: rest ∧ target ≠ [] ∧
        (∀ b ∈ target, isTargetByte b = true) ∧
        (standing .version [] false).finish { d with target := Utf8.decode target } rest =
          some e := by
  have hpush : ∀ (t : List UInt8) (b : UInt8), isTargetByte b = true →
      (standing .target t false).accept d b = .ok (standing .target (b :: t) false, d) := by
    intro t b hb
    have hspace : b ≠ 0x20 := ne_of_class hb (by decide)
    have hcr : b ≠ cr := ne_of_class hb (by decide)
    have hlf : b ≠ lf := ne_of_class hb (by decide)
    have hcontrol : isControl b = false := by simpa [isTargetByte, hspace] using hb
    simp [accept, standing, push, isLineEnd, hspace, hcr, hlf, hcontrol]
  have hend : ∀ t : List UInt8, t ≠ [] → (standing .target t false).accept d 0x20 =
      .ok (standing .version [] false, { d with target := Utf8.decode t.reverse }) := by
    intro t ht
    simp [accept, standing, tokenText, take, ht]
  rw [finish_span (g := fun t => standing .target t false) (fun t => Phase.noConfusion) hpush]
  simp only [List.append_nil]
  constructor
  · intro h
    obtain ⟨target, b, rest, rfl, htarget, hb, hfinish⟩ := h
    by_cases hspace : b = 0x20
    · subst hspace
      by_cases hempty : target = []
      · rw [finish_cons_error (f := .target) (by simp [accept, standing, hempty])] at hfinish
        cases hfinish
      · rw [finish_cons_ok Phase.noConfusion (hend _ (by simpa using hempty)),
          List.reverse_reverse] at hfinish
        exact ⟨target, rest, rfl, hempty, htarget, hfinish⟩
    · have hcontrol : isControl b = true := by simpa [isTargetByte, hspace] using hb
      obtain ⟨fault, hfault⟩ : ∃ fault,
          (standing .target target.reverse false).accept d b = .error fault := by
        by_cases hline : isLineEnd b = true
        · exact ⟨.version, by simp [accept, standing, hspace, hline]⟩
        · exact ⟨.target, by simp [accept, standing, hspace, hline, hcontrol]⟩
      rw [finish_cons_error hfault] at hfinish
      cases hfinish
  · intro h
    obtain ⟨target, rest, rfl, hempty, htarget, hfinish⟩ := h
    refine ⟨target, 0x20, rest, rfl, htarget, by decide, ?_⟩
    rw [finish_cons_ok Phase.noConfusion (hend _ (by simpa using hempty)), List.reverse_reverse]
    exact hfinish

/-! ### Line ends -/

theorem exists_lineEnd_cons (lineEnd : LineEnd) (rest : Bytes) :
    ∃ b rest', lineEnd.bytes ++ rest = b :: rest' ∧ isLineEnd b = true := by
  cases lineEnd with
  | crlf => exact ⟨cr, lf :: rest, rfl, by decide⟩
  | lf => exact ⟨lf, rest, rfl, by decide⟩

/-- After the CR of a line only its LF may come. -/
theorem finish_after_cr_iff {phase next : Phase} {d e : Draft} {fault : Fault}
    (hphase : phase ≠ .done)
    (hstep : ∀ b, (standing phase [] false).accept d b =
      if b = lf then .ok (standing next [] false, d) else .error fault) (input : Bytes) :
    (standing phase [] false).finish d input = some e ↔
      ∃ rest, input = lf :: rest ∧ (standing next [] false).finish d rest = some e := by
  cases input with
  | nil => simp [finish_nil (r := standing phase [] false) hphase]
  | cons b rest =>
    by_cases hb : b = lf
    · subst hb
      rw [finish_cons_ok (r := standing phase [] false) hphase ((hstep lf).trans (if_pos rfl))]
      simp
    · rw [finish_cons_error ((hstep b).trans (if_neg hb))]
      simp [hb]

/-- **A line ends in CR LF or in LF alone.** -/
theorem finish_lineEnd_iff {phase next : Phase} {d e : Draft} {fault : Fault}
    (hphase : phase ≠ .done)
    (hstep : ∀ b, (standing phase [] false).accept d b =
      if b = lf then .ok (standing next [] false, d) else .error fault)
    {b : UInt8} (hb : isLineEnd b = true) (rest : Bytes) :
    (standing (if b = cr then phase else next) [] false).finish d rest = some e ↔
      ∃ (lineEnd : LineEnd) (rest' : Bytes), b :: rest = lineEnd.bytes ++ rest' ∧
        (standing next [] false).finish d rest' = some e := by
  rcases isLineEnd_iff.1 hb with rfl | rfl
  · rw [if_pos rfl, finish_after_cr_iff hphase hstep]
    constructor
    · intro h
      obtain ⟨rest', rfl, hfinish⟩ := h
      exact ⟨.crlf, rest', rfl, hfinish⟩
    · intro h
      obtain ⟨lineEnd, rest', hinput, hfinish⟩ := h
      cases lineEnd with
      | crlf => exact ⟨rest', (List.cons.inj hinput).2, hfinish⟩
      | lf => exact absurd (List.cons.inj hinput).1 (by decide)
  · rw [if_neg (by decide)]
    constructor
    · intro hfinish
      exact ⟨.lf, rest, rfl, hfinish⟩
    · intro h
      obtain ⟨lineEnd, rest', hinput, hfinish⟩ := h
      cases lineEnd with
      | crlf => exact absurd (List.cons.inj hinput).1 (by decide)
      | lf => rwa [(List.cons.inj hinput).2]

/-! ### The version -/

theorem isHttpVersion_iff (token : Bytes) :
    isHttpVersion token = true ↔
      ∃ major minor, isDigitByte major = true ∧ isDigitByte minor = true ∧
        token = versionBytes major minor := by
  constructor
  · intro h
    unfold isHttpVersion at h
    split at h
    · next major minor =>
      rw [Bool.and_eq_true] at h
      exact ⟨major, minor, h.1, h.2, rfl⟩
    · cases h
  · intro h
    obtain ⟨major, minor, hmajor, hminor, rfl⟩ := h
    rw [versionBytes, isHttpVersion, hmajor, hminor, Bool.and_self]

theorem not_isLineEnd_of_isDigitByte {b : UInt8} (h : isDigitByte b = true) :
    isLineEnd b = false := by
  have hcr : b ≠ cr := ne_of_class h (by decide)
  have hlf : b ≠ lf := ne_of_class h (by decide)
  simp [isLineEnd, hcr, hlf]

theorem not_isLineEnd_of_mem_versionBytes {major minor : UInt8} (hmajor : isDigitByte major = true)
    (hminor : isDigitByte minor = true) :
    ∀ b ∈ versionBytes major minor, isLineEnd b = false := by
  simp only [versionBytes, List.forall_mem_cons]
  exact ⟨by decide, by decide, by decide, by decide, by decide, not_isLineEnd_of_isDigitByte hmajor,
    by decide, not_isLineEnd_of_isDigitByte hminor, by simp⟩

theorem toNat_le_of_mem_versionBytes {major minor : UInt8} (hmajor : isDigitByte major = true)
    (hminor : isDigitByte minor = true) :
    ∀ b ∈ versionBytes major minor, b.toNat ≤ 0x7F := by
  have hdigit : ∀ b, isDigitByte b = true → b.toNat ≤ 0x7F := by
    intro b hb
    have hdigit : (0x30 ≤ b && b ≤ 0x39) = true := hb
    exact toNat_le_of_isTokenByte (by rw [isTokenByte, hdigit]; rfl)
  simp only [versionBytes, List.forall_mem_cons]
  exact ⟨by decide, by decide, by decide, by decide, by decide, hdigit _ hmajor, by decide,
    hdigit _ hminor, by simp⟩

/-- Up to eight bytes go into the token of the version. -/
theorem finish_version_push {d : Draft} (t : List UInt8) {run : Bytes}
    (hrun : ∀ b ∈ run, isLineEnd b = false) (hlength : t.length + run.length ≤ 8) (rest : Bytes) :
    (standing .version t false).finish d (run ++ rest) =
      (standing .version (run.reverse ++ t) false).finish d rest := by
  induction run generalizing t with
  | nil => rfl
  | cons b run ih =>
    rw [List.length_cons] at hlength
    have hb : isLineEnd b = false := hrun b List.mem_cons_self
    have hstep : (standing .version t false).accept d b =
        .ok (standing .version (b :: t) false, d) := by
      have ht : ¬8 ≤ t.length := by omega
      simp [accept, standing, push, hb, ht]
    rw [List.cons_append, finish_cons_ok Phase.noConfusion hstep,
      ih (b :: t) (fun x hx => hrun x (List.mem_cons_of_mem b hx))
        (by rw [List.length_cons]; omega), List.reverse_cons, List.append_assoc,
      List.singleton_append]

/-- The request line ends with the version. -/
theorem finish_version_iff {d e : Draft} (input : Bytes) :
    (standing .version [] false).finish d input = some e ↔
      ∃ major minor lineEnd rest,
        input = versionBytes major minor ++ (LineEnd.bytes lineEnd ++ rest) ∧
        isDigitByte major = true ∧ isDigitByte minor = true ∧
        (standing .lineStart [] false).finish
          { d with version := Utf8.ascii (versionBytes major minor) } rest = some e := by
  have hpush : ∀ (t : List UInt8) (b : UInt8) (x : Reader × Draft), (!isLineEnd b) = true →
      (standing .version t false).accept d b = .ok x → x = (standing .version (b :: t) false, d) := by
    intro t b x hb haccept
    rw [Bool.not_eq_true'] at hb
    by_cases ht : 8 ≤ t.length
    · simp [accept, standing, hb, ht] at haccept
    · simpa [accept, standing, push, hb, ht, eq_comm] using haccept
  have hend : ∀ (token : Bytes) (b : UInt8), isHttpVersion token = true → isLineEnd b = true →
      (standing .version token.reverse false).accept d b =
        .ok (standing (if b = cr then .requestLineEnd else .lineStart) [] false,
          { d with version := Utf8.decode token }) := by
    intro token b htoken hb
    simp [accept, standing, tokenText, take, hb, htoken]
  have hline : ∀ (d : Draft) (b : UInt8), (standing .requestLineEnd [] false).accept d b =
      if b = lf then .ok (standing .lineStart [] false, d) else .error .version := by
    intro d b
    rfl
  have hascii : ∀ major minor, isDigitByte major = true → isDigitByte minor = true →
      Utf8.decode (versionBytes major minor) = Utf8.ascii (versionBytes major minor) := by
    intro major minor hmajor hminor
    exact Utf8.decode_eq_ascii (toNat_le_of_mem_versionBytes hmajor hminor)
  constructor
  · intro hfinish
    obtain ⟨token, b, rest, rfl, -, hb, hfinish⟩ := exists_run_of_finish
      (g := fun t => standing .version t false) (fun t => Phase.noConfusion) hpush hfinish
    rw [Bool.not_eq_false'] at hb
    rw [List.append_nil] at hfinish
    by_cases htoken : isHttpVersion token = true
    · rw [finish_cons_ok Phase.noConfusion (hend token b htoken hb)] at hfinish
      obtain ⟨major, minor, hmajor, hminor, rfl⟩ := (isHttpVersion_iff token).1 htoken
      obtain ⟨lineEnd, rest', hinput, hfinish⟩ :=
        (finish_lineEnd_iff (by decide) (hline _) hb rest).1 hfinish
      rw [hascii major minor hmajor hminor] at hfinish
      exact ⟨major, minor, lineEnd, rest', by rw [hinput], hmajor, hminor, hfinish⟩
    · rw [finish_cons_error (f := .version) (by simp [accept, standing, hb, htoken])] at hfinish
      cases hfinish
  · intro h
    obtain ⟨major, minor, lineEnd, rest, rfl, hmajor, hminor, hfinish⟩ := h
    obtain ⟨b, rest', hinput, hb⟩ := exists_lineEnd_cons lineEnd rest
    have htoken : isHttpVersion (versionBytes major minor) = true :=
      (isHttpVersion_iff _).2 ⟨major, minor, hmajor, hminor, rfl⟩
    rw [finish_version_push [] (not_isLineEnd_of_mem_versionBytes hmajor hminor) (Nat.le_refl 8),
      List.append_nil, hinput, finish_cons_ok Phase.noConfusion (hend _ b htoken hb),
      hascii major minor hmajor hminor]
    exact (finish_lineEnd_iff (by decide) (hline _) hb rest').2 ⟨lineEnd, rest, hinput.symm, hfinish⟩

end HttpExchange.Head.Reader
